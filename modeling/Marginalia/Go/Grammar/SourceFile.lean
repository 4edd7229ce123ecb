/-
Module: Marginalia.Go.Grammar.SourceFile
Purpose: The rules for source files, and the reader of all phrases.
Main exports:
  readPhrase, declarations, sourceFile, Tree.parse?
-/
import Marginalia.Go.Grammar.Statement

namespace Marginalia.Go.Grammar

/-! ### All phrases -/

/-- The rule of every phrase, over a reader of the phrases inside. -/
def rule (phrases : Phrases) : Phrases
  | .type line => typeRule phrases line
  | .expression s => expressionRule phrases s
  | .literal => literalRule phrases
  | .block => blockRule phrases
  | .statement place => statementRule phrases place

/-- Read a phrase in which phrases are nested at most `depth` deep. -/
def readPhrase : (depth : Nat) → Phrases
  | 0 => fun _ => failure
  | depth + 1 => rule (readPhrase depth)

variable (phrases : Phrases)

/-! ### Top-level declarations -/

/-- A package clause. -/
def packageClause : Reading Draft :=
  node .packageClause do
    return [← keyword .packageWord, ← word .packageIdentifier]

/-- One import: perhaps a name or a dot, and a path. -/
def importSpec : Reading Draft :=
  node .importSpec do
    match ← peek false with
    | some (.mark .dot) =>
      return [(← mark .dot).withRole .name, (← stringLiteral).withRole .path]
    | some (.word _) =>
      return [(← word .packageIdentifier).withRole .name, (← stringLiteral).withRole .path]
    | _ => return [(← stringLiteral).withRole .path]

/-- An import declaration. -/
def importDeclaration : Reading Draft :=
  node .importDeclaration do
    let head ← keyword .importWord
    if ← atMark false .parenL then
      return [head, ← node .importSpecList (listed .parenL .parenR importSpec)]
    return [head, ← importSpec]

/-- The result and the body of a function; a newline ends it before either. -/
def functionTail : Reading (List Draft) := do
  let result ← result? phrases true
  if ← atMark true .braceL then return result ++ [(← phrases .block).withRole .body]
  return result

/-- A function declaration. -/
def functionDeclaration : Reading Draft :=
  node .functionDeclaration do
    let head ← keyword .funcWord
    let name ← word .identifier
    let types ← if ← atMark false .bracketL then one (typeParameters phrases) else pure []
    let ps ← parameters phrases
    return [head, name.withRole .name] ++ types ++
      ps.withRole .parameters :: (← functionTail phrases)

/-- A method declaration. -/
def methodDeclaration : Reading Draft :=
  node .methodDeclaration do
    let head ← keyword .funcWord
    let receiver ← parameters phrases
    let name ← word .fieldIdentifier
    let ps ← parameters phrases
    return [head, receiver.withRole .receiver, name.withRole .name, ps.withRole .parameters] ++
      (← functionTail phrases)

/-- A declaration or statement of a source file. -/
def topLevel : Reading Draft := do
  match ← peek false with
  | some (.word (some .packageWord)) => packageClause
  | some (.word (some .importWord)) => importDeclaration
  | some (.word (some .funcWord)) =>
    functionDeclaration phrases <|> methodDeclaration phrases <|> phrases (.statement .top)
  | _ => phrases (.statement .top)

/-- The declarations of a source file, each with a terminator or the end of the file after it. No
phrase is nested deeper than there are lexemes left for it. -/
def declarations : Reading (List Draft) :=
  repeatWhile do
    match ← peek false with
    | none => return none
    | some _ =>
      let t ← topLevel (readPhrase (4 * (← get).length + 16))
      match ← terminator? with
      | some ts => return some (t :: ts)
      | none => if (← peek true).isNone then return some [t] else failure

/-- A source file; newlines at its start have no meaning. -/
def sourceFile : Reading (List Draft) := do
  passNewline
  declarations

end Grammar

open Grammar

/-- The lexeme with a number, counted from the end. -/
def Lexeme.numbered? (lexemes : List Lexeme) (number : Nat) : Option Lexeme :=
  lexemes[lexemes.length - number]?

/-- The syntax tree of a source text; there is none when the text has a stray character or does not
follow the grammar. -/
def Tree.parse? (source : List Char) : Option Tree := do
  let lexemes := Lexeme.scan source
  let solid := Lexeme.solid false lexemes
  guard (lexemes.all fun l => l.token != .stray)
  let (drafts, rest) ← sourceFile.run (solid.map fun (l, newline) => ⟨l.token, newline⟩)
  if rest.isEmpty then
    let lexeme (number : Nat) : Option Lexeme := Lexeme.numbered? (solid.map (·.1)) number
    let start (number : Nat) : Point := ((lexeme number).map (·.start)).getD ⟨0, 0⟩
    let stop (number : Nat) : Point := ((lexeme number).map (·.stop)).getD ⟨0, 0⟩
    let trees := Node.locateAll start stop drafts
    let comments := lexemes.filter fun l => l.token == .comment
    let last := (lexemes.getLast?.map (·.stop)).getD ⟨0, 0⟩
    return Tree.attach comments (.node .sourceFile none ⟨0, 0⟩ last trees)
  else none

end Marginalia.Go
