/-
Module: Marginalia.Go.Grammar.Expression
Purpose: The rules for expressions, calls and literals of composite types.
Main exports:
  expressionRule, literalRule, expressionList
-/
import Marginalia.Go.Grammar.Type

namespace Marginalia.Go.Grammar

/-!
Expressions and types overlap: `a.b` and `a[b]` may be either, and a type in front of an argument
or of braces is an expression. An operand is therefore read with a note of all that it can be, and
what follows decides.
-/

/-- What an operand read so far can be. -/
structure Operand where
  /-- An expression. -/
  value : Bool := false
  /-- A type, which may be converted to or instantiated. -/
  type : Bool := false
  /-- A type whose literals are written with braces. -/
  literal : Bool := false
  /-- A plain name, which may be a package. -/
  name : Bool := false
  /-- The name of a type, which may have type arguments. -/
  generic : Bool := false
  /-- A function with type arguments, which may only be called. -/
  callee : Bool := false
deriving Repr, DecidableEq, Inhabited

namespace Operand

/-- An expression and nothing else. -/
def ofValue : Operand := { value := true }

/-- A type without literals of its own. -/
def ofType : Operand := { type := true }

/-- A type whose literals are written with braces. -/
def ofLiteralType : Operand := { type := true, literal := true }

/-- A plain name, which may be anything. -/
def ofName : Operand :=
  { value := true, type := true, literal := true, name := true, generic := true }

/-- A name behind a dot, which may be all but a package. -/
def ofQualifiedName : Operand :=
  { value := true, type := true, literal := true, generic := true }

end Operand

variable (phrases : Phrases)

/-! ### Arguments and elements -/

/-- The arguments of a call; each may have `...` after it. -/
def arguments : Reading (List Draft) :=
  enclosed .parenL .parenR false do
    let e ← phrases (.expression {})
    return e :: (← mark? false .ellipsis)

/-- The arguments of `new` and `make`: a type, then expressions. -/
def typeFirstArguments : Reading (List Draft) := do
  let opening ← mark .parenL
  if ← atMark false .parenR then return [opening, ← mark .parenR]
  let t ← phrases (.type false)
  let others ← repeatWhile do
    if ← atMark false .comma then
      let comma ← mark .comma
      if ← atMark false .parenR then return some [comma]
      return some [comma, ← phrases (.expression {})]
    else return none
  return opening :: t :: others ++ [← mark .parenR]

/-- The argument of a conversion. -/
def conversionArgument : Reading (List Draft) := do
  let opening ← mark .parenL
  let e ← phrases (.expression {})
  let comma ← mark? false .comma
  return [opening, e] ++ comma ++ [← mark .parenR]

/-- An element of a composite literal: an expression or braces. -/
def literalElement : Reading Draft := do
  if ← atMark false .braceL then phrases .literal else phrases (.expression {})

/-- The braces of a composite literal. -/
def literalRule : Reading Draft :=
  node .expression <| enclosed .braceL .braceR true do
    let first ← literalElement phrases
    if ← atMark false .colon then
      return [first, ← mark .colon, ← literalElement phrases]
    else return [first]

/-- An expression, unless the next token is one of the marks. -/
def optionalExpression (marks : List Mark) : Reading (List Draft) := do
  match ← peek false with
  | some (.mark m) => if marks.contains m then return [] else one (phrases (.expression {}))
  | _ => one (phrases (.expression {}))

/-- An index or the bounds of a slice, between brackets. -/
def indexOrSlice : Reading (List Draft) := do
  let opening ← mark .bracketL
  let first ← optionalExpression phrases [.colon]
  if ← atMark false .colon then
    let colon ← mark .colon
    let second ← optionalExpression phrases [.colon, .bracketR]
    if !second.isEmpty && (← atMark false .colon) then
      let colon₂ ← mark .colon
      let third ← phrases (.expression {})
      return opening :: first ++ colon :: second ++ [colon₂, third, ← mark .bracketR]
    else return opening :: first ++ colon :: second ++ [← mark .bracketR]
  else return opening :: first ++ [← mark .bracketR]

/-- Whether a list of type arguments holds only plain types, without bars. -/
def plainTypes (ts : List Draft) : Bool :=
  ts.all fun t => t.kind != .typeElem || t.children.length == 1

/-- Run a reader without failing: its result and the cursor after it, or nothing. -/
def attempt {α : Type} (reader : Reading α) : Reading (Option (α × Cursor)) := fun c =>
  some (reader c, c)

/-- Brackets after an operand: an index, a slice, or type arguments. -/
def bracketed (operand : Operand) : Reading Operand := do
  let index ← if operand.value then attempt (indexOrSlice phrases) else pure none
  let types ← if operand.type || operand.value then attempt (typeArguments phrases) else pure none
  match index, types with
  | some (_, after), _ =>
    set after
    let generic := operand.generic && types.isSome
    return { value := true, type := generic, literal := generic }
  | none, some (ts, after) =>
    set after
    return {
      value := operand.type && plainTypes ts
      type := operand.generic
      literal := operand.generic
      callee := operand.value }
  | none, none => failure

/-! ### Operands -/

/-- Whether `.(type)` is next. -/
def atTypeGuard : Reading Bool := do
  let tokens : List Token := (← get).map (·.token)
  match tokens with
  | .mark .dot :: .mark .parenL :: .word (some .typeWord) :: .mark .parenR :: _ => return true
  | _ => return false

/-- A selector or a type assertion after a dot. -/
def selected (operand : Operand) : Reading Operand := do
  let _ ← mark .dot
  if ← atMark false .parenL then
    let _ ← mark .parenL
    let _ ← phrases (.type false)
    let _ ← mark .parenR
    return .ofValue
  else
    let _ ← word .fieldIdentifier
    return if operand.name then .ofQualifiedName else .ofValue

/-- One step of what follows an operand; nothing when the operand ends. -/
def suffix? (s : Setting) (operand : Operand) : Reading (Option Operand) := do
  match ← peek (s.line && operand.value) with
  | some (.mark .dot) =>
    if !operand.value || (s.guard && (← atTypeGuard)) then return none
    return some (← selected phrases operand)
  | some (.mark .bracketL) => return some (← bracketed phrases operand)
  | some (.mark .parenL) =>
    if operand.value || operand.callee then
      let _ ← arguments phrases
      return some .ofValue
    else if operand.type then
      let _ ← conversionArgument phrases
      return some .ofValue
    else return none
  | some (.mark .braceL) =>
    if operand.literal && !(s.body && operand.value) then
      let _ ← phrases .literal
      return some .ofValue
    else return none
  | _ => return none

/-- All that follows an operand, in at most `n` steps; the whole must be an expression. -/
def suffixes (s : Setting) : (n : Nat) → Operand → Reading Unit
  | 0, _ => failure
  | n + 1, operand => do
    match ← suffix? phrases s operand with
    | some next => suffixes s n next
    | none => if operand.value then return () else failure

/-- A parenthesised expression or type. -/
def parenthesized : Reading Operand :=
  (do
    let _ ← mark .parenL
    let _ ← phrases (.expression {})
    let _ ← mark .parenR
    return .ofValue) <|>
  (do
    let _ ← mark .parenL
    let _ ← phrases (.type false)
    let _ ← mark .parenR
    return .ofType)

/-- A literal type that begins with a bracket. -/
def bracketOperand : Reading Operand :=
  (do
    let _ ← bracketType phrases false
    return .ofLiteralType) <|>
  (do
    let _ ← mark .bracketL
    let _ ← mark .ellipsis
    let _ ← mark .bracketR
    let _ ← phrases (.type false)
    return { literal := true })

/-- A function literal or function type. -/
def functionOperand : Reading Operand := do
  let _ ← functionType phrases false
  if ← atMark false .braceL then
    let _ ← phrases .block
    return .ofValue
  else return .ofType

/-- An operand that begins with a keyword; words that are no keywords here are names. -/
def keywordOperand (s : Setting) : Keyword → Reading Operand
  | .funcWord => functionOperand phrases
  | .structWord => do
    let _ ← phrases (.type false)
    return .ofLiteralType
  | .mapWord => do
    let _ ← phrases (.type false)
    return .ofLiteralType
  | .interfaceWord => do
    let _ ← phrases (.type false)
    return .ofType
  | .chanWord => do
    let _ ← phrases (.type false)
    return .ofType
  | .newWord => do
    let _ ← take
    if ← atMark s.line .parenL then
      let _ ← typeFirstArguments phrases
    return .ofValue
  | .makeWord => do
    let _ ← take
    if ← atMark s.line .parenL then
      let _ ← typeFirstArguments phrases
    return .ofValue
  | .nilWord => do
    let _ ← take
    return .ofValue
  | .trueWord => do
    let _ ← take
    return .ofValue
  | .falseWord => do
    let _ ← take
    return .ofValue
  | .iotaWord => do
    let _ ← take
    return .ofValue
  | _ => do
    let _ ← take
    return .ofName

/-- The start of an operand. -/
def operandHead (s : Setting) : Reading Operand := do
  match ← peek false with
  | some (.word (some k)) => keywordOperand phrases s k
  | some (.word none) =>
    let _ ← take
    return .ofName
  | some .number =>
    let _ ← take
    return .ofValue
  | some .rune =>
    let _ ← take
    return .ofValue
  | some .quoted =>
    let _ ← take
    return .ofValue
  | some .raw =>
    let _ ← take
    return .ofValue
  | some (.mark .parenL) => parenthesized phrases
  | some (.mark .bracketL) => bracketOperand phrases
  | some (.mark .tilde) =>
    let _ ← phrases (.type false)
    return .ofType
  | _ => failure

/-- The marks that stand before an operand, two operators in one included. -/
def unaryMarks : List Mark :=
  [.plus, .minus, .bang, .caret, .star, .amp, .arrow, .increment, .decrement, .andAnd, .ampCaret]

/-- An operand with the operators before it and all that follows it. -/
def operand (s : Setting) : Reading Unit := do
  let _ ← repeatWhile do
    match ← peek false with
    | some (.mark m) =>
      if unaryMarks.contains m then
        let _ ← take
        return some []
      else return none
    | _ => return none
  let head ← operandHead phrases s
  suffixes phrases s ((← get).length + 1) head

/-! ### Expressions -/

/-- The marks between two operands. -/
def binaryMarks : List Mark :=
  [.plus, .minus, .star, .slash, .percent, .amp, .bar, .caret, .shiftL, .shiftR, .ampCaret,
    .equal, .notEqual, .less, .lessEqual, .greater, .greaterEqual, .andAnd, .orOr]

/-- Whether a mark joins the operand before it to the next. A mark of two operators does so where
it cannot be one: the second then stands before the next operand. -/
def joins (s : Setting) (m : Mark) : Bool :=
  binaryMarks.contains m || (m == .increment && !s.count) || (m == .decrement && !s.count) ||
    (m == .arrow && !s.send)

/-- The rule for expressions. -/
def expressionRule (s : Setting) : Reading Draft :=
  node .expression do
    operand phrases s
    repeatWhile do
      match ← peek s.line with
      | some (.mark m) =>
        if joins s m then
          let _ ← take
          operand phrases s
          return some []
        else return none
      | _ => return none

/-- Expressions with commas between them; only the first is followed as the setting says. -/
def expressionList (s : Setting) : Reading Draft :=
  node .expressionList do
    let first ← phrases (.expression s)
    let others ← repeatWhile do
      if ← atMark s.line .comma then
        return some [← mark .comma, ← phrases (.expression s)]
      else return none
    return first :: others

end Marginalia.Go.Grammar
