/-
Module: Marginalia.Go.Grammar.Reading
Purpose: Readers over lexemes: look ahead, take, repeat, and build nodes.
Main exports:
  Sign, Cursor, Reading, Draft, peek, take, mark, word, keyword, node, terminator?, repeatWhile,
  separated, enclosed, listed, terminated
-/
import Marginalia.Go.Tree

namespace Marginalia.Go.Grammar

/-!
A newline ends a construct exactly where a terminator may stand. So a reader that has read enough
to stop passes `line := true` when it looks for more, and then sees a newline; a reader that needs
more passes over newlines.

The grammar does not look at places. It refers to lexemes by their numbers, counted from the end of
the file, so that what is read does not depend on what stands before it.
-/

/-- A lexeme as the grammar sees it: what it is, and whether a newline stands before it. -/
structure Sign where
  token : Token
  afterNewline : Bool
deriving Repr, DecidableEq, Inhabited

/-- What is left to read. -/
abbrev Cursor := List Sign

/-- A reader: it may fail, and a failed reader leaves the cursor where it was. -/
abbrev Reading := StateT Cursor Option

/-- A syntax tree with the numbers of lexemes as places. -/
abbrev Draft := Node Nat

/-- A lexeme that was taken, with its number. -/
structure Taken where
  token : Token
  number : Nat
deriving Repr, DecidableEq, Inhabited

/-- The next token, if there is one; with `line`, a newline before it shows in its place. -/
def peek (line : Bool) : Reading (Option Token) := do
  match ← get with
  | [] => return none
  | l :: _ => return some (if line && l.afterNewline then .newline else l.token)

/-- Take the next lexeme. -/
def take : Reading Taken := do
  match ← get with
  | [] => failure
  | l :: rest =>
    set rest
    return { token := l.token, number := rest.length + 1 }

/-- The node of a single lexeme. -/
def leaf (kind : Kind) (l : Taken) : Draft :=
  .node kind none l.number l.number []

/-- The number of the lexeme that was taken last. -/
def lastNumber : Reading Nat := do
  return (← get).length + 1

/-- Take a mark. -/
def mark (m : Mark) : Reading Draft := do
  let l ← take
  if l.token = .mark m then return leaf (.mark m) l else failure

/-- Take any word, keyword or not. -/
def word (kind : Kind) : Reading Draft := do
  let l ← take
  match l.token with
  | .word _ => return leaf kind l
  | _ => failure

/-- Take a keyword. -/
def keyword (k : Keyword) : Reading Draft := do
  let l ← take
  if l.token = .word (some k) then return leaf (.keyword k) l else failure

/-- Take a string literal. -/
def stringLiteral : Reading Draft := do
  let l ← take
  match l.token with
  | .quoted => return leaf .quotedString l
  | .raw => return leaf .rawString l
  | _ => failure

/-- Whether the next token is a mark. -/
def atMark (line : Bool) (m : Mark) : Reading Bool := do
  return (← peek line) == some (.mark m)

/-- Take a mark if it is next. -/
def mark? (line : Bool) (m : Mark) : Reading (List Draft) := do
  if ← atMark line m then return [← mark m] else return []

/-- Read children and join them under a node. -/
def node (kind : Kind) (children : Reading (List Draft)) : Reading Draft := do
  match ← get with
  | [] => failure
  | _ :: rest =>
    let cs ← children
    return .node kind none (rest.length + 1) (← lastNumber) cs

/-- Read a node in a role. -/
def inRole (role : Role) (reader : Reading Draft) : Reading Draft := do
  return (← reader).withRole role

/-- Read a child list of one. -/
def one (reader : Reading Draft) : Reading (List Draft) := do
  return [← reader]

/-- Pass over a newline. -/
def passNewline : Reading Unit :=
  modify fun
    | [] => []
    | l :: rest => { l with afterNewline := false } :: rest

/-- Take a terminator: a newline, which leaves no node, a semicolon or a NUL. Newlines after it have
no meaning. -/
def terminator? : Reading (Option (List Draft)) := do
  match ← peek true with
  | some .newline =>
    passNewline
    return some []
  | some (.mark .semicolon) =>
    let semicolon ← mark .semicolon
    passNewline
    return some [semicolon]
  | some (.mark .nul) =>
    let nul ← mark .nul
    passNewline
    return some [nul]
  | _ => return none

/-- Repeat a reader, fewer than `n` times, until it declines. It must take a lexeme each time. -/
def repeatUpTo : (n : Nat) → Reading (Option (List Draft)) → Reading (List Draft)
  | 0, _ => failure
  | n + 1, reader => do
    let before := (← get).length
    match ← reader with
    | none => return []
    | some ts =>
      if (← get).length < before then return ts ++ (← repeatUpTo n reader) else failure

/-- Repeat a reader that takes at least one lexeme each time, until it declines. -/
def repeatWhile (reader : Reading (Option (List Draft))) : Reading (List Draft) := do
  repeatUpTo ((← get).length + 1) reader

/-- One or more items with commas between them. The comma is looked for beyond newlines unless
`line`. -/
def separated (line : Bool) (item : Reading (List Draft)) : Reading (List Draft) := do
  let first ← item
  let others ← repeatWhile do
    if ← atMark line .comma then
      let comma ← mark .comma
      return some (comma :: (← item))
    else return none
  return first ++ others

/-- A list of items between two marks, with commas between the items and perhaps after the last.
With `bare`, a single comma may stand without items. -/
def enclosed (opening closing : Mark) (bare : Bool) (item : Reading (List Draft)) :
    Reading (List Draft) := do
  let first ← mark opening
  if bare && (← atMark false .comma) then
    return [first, ← mark .comma, ← mark closing]
  let items ← repeatWhile do
    if ← atMark false closing then return none
    let ts ← item
    if ← atMark false closing then return some ts
    return some (ts ++ [← mark .comma])
  return first :: items ++ [← mark closing]

/-- A list of items between braces, with terminators between the items and perhaps after the
last. -/
def listed (opening closing : Mark) (item : Reading Draft) : Reading (List Draft) := do
  let first ← mark opening
  let items ← repeatWhile do
    if ← atMark false closing then return none
    let t ← item
    match ← terminator? with
    | some ts => return some (t :: ts)
    | none => if ← atMark true closing then return some [t] else failure
  return first :: items ++ [← mark closing]

/-- A list of items between parentheses, each with a terminator after it. -/
def terminated (item : Reading Draft) : Reading (List Draft) := do
  let first ← mark .parenL
  let items ← repeatWhile do
    if ← atMark false .parenR then return none
    let t ← item
    match ← terminator? with
    | some ts => return some (t :: ts)
    | none => failure
  return first :: items ++ [← mark .parenR]

end Marginalia.Go.Grammar
