/-
Module: Marginalia.Go.Grammar.Statement
Purpose: The rules for declarations of constants, variables and types, and for statements.
Main exports:
  constDeclaration, varDeclaration, typeDeclaration, blockRule, statementRule
-/
import Marginalia.Go.Grammar.Expression

namespace Marginalia.Go.Grammar

variable (phrases : Phrases)

/-! ### Declarations -/

/-- The setting of an expression at the end of a line. -/
def atLineEnd : Setting := { line := true }

/-- An equals sign and the values after it. -/
def assignedValues : Reading (List Draft) := do
  return [← mark .assign, (← expressionList phrases atLineEnd).withRole .value]

/-- Names with commas between them. -/
def declaredNames (line : Bool) : Reading (List Draft) :=
  separated line (one (inRole .name (word .identifier)))

/-- The declaration of constants: names, then perhaps a type and values. -/
def constSpec : Reading Draft :=
  node .constSpec do
    let names ← declaredNames true
    match ← peek true with
    | some (.mark .assign) => return names ++ (← assignedValues phrases)
    | some token =>
      if beginsType token then
        let t ← phrases (.type false)
        return names ++ t.withRole .type :: (← assignedValues phrases)
      else return names
    | none => return names

/-- The declaration of variables: names, then a type, values or both. -/
def varSpec : Reading Draft :=
  node .varSpec do
    let names ← declaredNames false
    if ← atMark false .assign then return names ++ (← assignedValues phrases)
    let t ← phrases (.type true)
    let values ← if ← atMark true .assign then assignedValues phrases else pure []
    return names ++ t.withRole .type :: values

/-- Whether a declaration may end here. -/
def atSpecEnd : Reading Bool := do
  match ← peek true with
  | some .newline => return true
  | some (.mark m) => return m == .semicolon || m == .nul || m == .braceR
  | some _ => return false
  | none => return true

/-- The declaration of a type or of another name for one. A bracket after the name belongs to the
type if the whole can be read so, and else begins type parameters. -/
def typeSpec : Reading Draft := do
  let synonym : Reading Draft := node .typeAlias do
    return [(← word .typeIdentifier).withRole .name, ← mark .assign,
      (← phrases (.type true)).withRole .type]
  let plain : Reading Draft := node .typeSpec do
    let name ← word .typeIdentifier
    let t ← phrases (.type true)
    if ← atSpecEnd then return [name.withRole .name, t.withRole .type] else failure
  let generic : Reading Draft := node .typeSpec do
    let name ← word .typeIdentifier
    let ps ← typeParameters phrases
    return [name.withRole .name, ps, (← phrases (.type true)).withRole .type]
  synonym <|> plain <|> generic

/-- A constant declaration. -/
def constDeclaration : Reading Draft :=
  node .constDeclaration do
    let head ← keyword .constWord
    if ← atMark false .parenL then return head :: (← terminated (constSpec phrases))
    return [head, ← constSpec phrases]

/-- A variable declaration. -/
def varDeclaration : Reading Draft :=
  node .varDeclaration do
    let head ← keyword .varWord
    if ← atMark false .parenL then
      return [head, ← node .varSpecList (terminated (varSpec phrases))]
    return [head, ← varSpec phrases]

/-- A type declaration. -/
def typeDeclaration : Reading Draft :=
  node .typeDeclaration do
    let head ← keyword .typeWord
    if ← atMark false .parenL then return head :: (← terminated (typeSpec phrases))
    return [head, ← typeSpec phrases]

/-! ### Simple statements -/

/-- Whether a simple statement is a single expression. -/
inductive Simple where
  | expression
  | other
deriving DecidableEq

/-- The rest of an expression list, after the first expression, up to the operator. -/
def otherExpressions : Reading Unit := do
  let _ ← repeatWhile do
    if ← atMark false .comma then
      return some [← mark .comma, ← phrases (.expression {})]
    else return none

/-- The marks that assign. -/
def assignMarks : List Mark := [.assign, .define, .compoundAssign]

/-- A simple statement. The first expression is read in the setting `s`, what an operator takes on
its right in the setting `right`. -/
def simple (s right : Setting) : Reading Simple := do
  let _ ← phrases (.expression s)
  match ← peek s.line with
  | some (.mark .increment) => let _ ← take; return .other
  | some (.mark .decrement) => let _ ← take; return .other
  | some (.mark .arrow) =>
    let _ ← take
    let _ ← phrases (.expression right)
    return .other
  | some (.mark .comma) =>
    otherExpressions phrases
    let l ← take
    match l.token with
    | .mark m => if assignMarks.contains m then pure () else failure
    | _ => failure
    let _ ← expressionList phrases right
    return .other
  | some (.mark m) =>
    if assignMarks.contains m then
      let _ ← take
      let _ ← expressionList phrases right
      return .other
    else return .expression
  | _ => return .expression

/-- The setting of an expression that may begin a simple statement. -/
def opening : Setting := { count := true, send := true }

/-! ### Lists of statements -/

/-- Whether a list of statements ends here. -/
def atListEnd (place : Place) : Reading Bool := do
  match ← peek false with
  | none => return place == .top
  | some (.mark .braceR) => return place != .top
  | some (.word (some .caseWord)) => return place == .clause
  | some (.word (some .defaultWord)) => return place == .clause
  | _ => return false

/-- Statements with terminators between them and perhaps after the last. -/
def statements (place : Place) : Reading (List Draft) :=
  repeatWhile do
    if ← atListEnd place then return none
    let t ← phrases (.statement place)
    match ← terminator? with
    | some ts => return some (t :: ts)
    | none => if ← atListEnd place then return some [t] else failure

/-- Statements between braces. -/
def blockRule : Reading Draft :=
  node .block do
    let first ← mark .braceL
    let inner ← statements phrases .block
    return first :: inner ++ [← mark .braceR]

/-! ### Compound statements -/

/-- An `if` statement. -/
def ifStatement : Reading Unit := do
  let _ ← keyword .ifWord
  let first ← simple phrases { opening with body := true } {}
  if ← atMark false .semicolon then
    let _ ← take
    let _ ← phrases (.expression { body := true })
  else if first = .other then failure
  let _ ← phrases .block
  if (← peek true) = some (.word (some .elseWord)) then
    let _ ← take
    if (← peek false) = some (.word (some .ifWord)) then
      let _ ← phrases (.statement .block)
    else
      let _ ← phrases .block

/-- What follows the first statement of a three-part `for`. -/
def forTail : Reading Unit := do
  let _ ← mark .semicolon
  let _ ← optionalExpression phrases [.semicolon]
  let _ ← mark .semicolon
  unless ← atMark false .braceL do
    let _ ← simple phrases { opening with body := true } { body := true }

/-- A `range` clause from its keyword on. -/
def rangeClause : Reading Unit := do
  let _ ← keyword .rangeWord
  let _ ← phrases (.expression { body := true })

/-- The head of a `for` statement. -/
def forHead : Reading Unit := do
  match ← peek false with
  | some (.mark .braceL) => return ()
  | some (.mark .semicolon) => forTail phrases
  | some (.word (some .rangeWord)) => rangeClause phrases
  | _ =>
    let withRange : Reading Unit := do
      let _ ← phrases (.expression { opening with body := true })
      otherExpressions phrases
      let l ← take
      if l.token = .mark .assign ∨ l.token = .mark .define then rangeClause phrases else failure
    let plain : Reading Unit := do
      let first ← simple phrases { opening with body := true } {}
      if ← atMark false .semicolon then forTail phrases
      else if first = .other then failure
    withRange <|> plain

/-- A `for` statement. -/
def forStatement : Reading Unit := do
  let _ ← keyword .forWord
  forHead phrases
  let _ ← phrases .block

/-- The clauses of a `switch` or `select` between braces; `label` reads what follows `case`. -/
def clauses (label : Reading Unit) : Reading Unit := do
  let _ ← mark .braceL
  let _ ← repeatWhile do
    if ← atMark false .braceR then return none
    let l ← take
    match l.token with
    | .word (some .caseWord) => label
    | .word (some .defaultWord) => pure ()
    | _ => failure
    let _ ← mark .colon
    return some (← statements phrases .clause)
  let _ ← mark .braceR

/-- `.(type)`. -/
def typeGuard : Reading Unit := do
  let _ ← mark .dot
  let _ ← mark .parenL
  let _ ← keyword .typeWord
  let _ ← mark .parenR

/-- The clauses of an expression switch. -/
def expressionClauses : Reading Unit :=
  clauses phrases do
    let _ ← expressionList phrases {}

/-- The clauses of a type switch. -/
def typeClauses : Reading Unit :=
  clauses phrases do
    let _ ← separated false (one (phrases (.type false)))

/-- The guard of a type switch, with the name that it defines if there is one. -/
def switchGuard : Reading Unit := do
  let defined : Reading Unit := do
    let _ ← expressionList phrases {}
    let _ ← mark .define
    let _ ← phrases (.expression { guard := true })
    typeGuard
  let bare : Reading Unit := do
    let _ ← phrases (.expression { guard := true, body := true })
    typeGuard
  defined <|> bare

/-- What a `switch` statement has after its initial statement: a type guard or a value, either with
its clauses. -/
def switchTail : Reading Unit := do
  match ← attempt (switchGuard phrases) with
  | some (_, after) =>
    set after
    typeClauses phrases
  | none =>
    unless ← atMark false .braceL do
      let _ ← phrases (.expression { body := true })
    expressionClauses phrases

/-- A `switch` statement. -/
def switchStatement : Reading Unit := do
  let _ ← keyword .switchWord
  let initial : Reading Unit := do
    let _ ← simple phrases { opening with body := true } {}
    let _ ← mark .semicolon
  match ← attempt initial with
  | some (_, after) => set after
  | none => pure ()
  switchTail phrases

/-- A `select` statement. -/
def selectStatement : Reading Unit := do
  let _ ← keyword .selectWord
  clauses phrases do
    let _ ← phrases (.expression { send := true })
    match ← peek false with
    | some (.mark .arrow) =>
      let _ ← take
      let _ ← phrases (.expression {})
    | some (.mark .colon) => return ()
    | _ =>
      otherExpressions phrases
      let l ← take
      if l.token = .mark .assign ∨ l.token = .mark .define then
        let _ ← phrases (.expression {})
      else failure

/-- Whether a keyword begins the next clause, in a list of statements of a clause. -/
def beginsClause (place : Place) (k : Option Keyword) : Bool :=
  place == .clause && (k == some .caseWord || k == some .defaultWord)

/-- A jump with a label that may be left out. -/
def jump (place : Place) : Reading Unit := do
  let _ ← take
  match ← peek true with
  | some (.word k) => unless beginsClause place k do let _ ← take
  | _ => return ()

/-- A `return` statement. -/
def returnStatement (place : Place) : Reading Unit := do
  let _ ← take
  match ← peek true with
  | some (.word k) =>
    unless beginsClause place k do
      let _ ← expressionList phrases atLineEnd
  | some token =>
    if beginsExpression token then
      let _ ← expressionList phrases atLineEnd
  | none => return ()

/-- A word and a colon, at the start of a statement. -/
def label? : Reading Bool := do
  match ← get with
  | ⟨.word _, _⟩ :: ⟨.mark .colon, false⟩ :: _ =>
    let _ ← take
    let _ ← take
    return true
  | _ => return false

/-- A statement that begins with no keyword: a labelled or a simple one. A label at the end of a
block stands alone. -/
def plainStatement (place : Place) : Reading Unit := do
  if ← label? then
    unless place != .top && (← atListEnd place) do
      let _ ← phrases (.statement place)
  else
    let _ ← simple phrases { opening with line := true } atLineEnd

/-- The rule for statements. -/
def statementRule (place : Place) : Reading Draft := do
  let whole (reader : Reading Unit) : Reading Draft := node .statement do
    reader
    return []
  match ← peek false with
  | some (.mark .semicolon) => whole do let _ ← take
  | some (.mark .braceL) => blockRule phrases
  | some (.word (some k)) =>
    match k with
    | .constWord => constDeclaration phrases
    | .varWord => varDeclaration phrases
    | .typeWord => typeDeclaration phrases
    | .returnWord => whole (returnStatement phrases place)
    | .goWord => whole do
      let _ ← take
      let _ ← phrases (.expression atLineEnd)
    | .deferWord => whole do
      let _ ← take
      let _ ← phrases (.expression atLineEnd)
    | .ifWord => whole (ifStatement phrases)
    | .forWord => whole (forStatement phrases)
    | .switchWord => whole (switchStatement phrases)
    | .selectWord => whole (selectStatement phrases)
    | .breakWord => whole (jump place)
    | .continueWord => whole (jump place)
    | .gotoWord => whole do
      let _ ← take
      let _ ← word .identifier
    | .fallthroughWord => whole do let _ ← take
    | .packageWord => if place = .top then failure else whole (plainStatement phrases place)
    | .importWord => if place = .top then failure else whole (plainStatement phrases place)
    | .caseWord => if place = .clause then failure else whole (plainStatement phrases place)
    | .defaultWord => if place = .clause then failure else whole (plainStatement phrases place)
    | .elseWord => whole (plainStatement phrases place)
    | .rangeWord => whole (plainStatement phrases place)
    | _ => whole do
      let _ ← simple phrases { opening with line := true } atLineEnd
  | _ => whole (plainStatement phrases place)

end Marginalia.Go.Grammar
