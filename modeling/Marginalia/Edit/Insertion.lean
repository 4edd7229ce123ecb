/-
Module: Marginalia.Edit.Insertion
Purpose: Where the imports that are added to a file are written.
Main exports:
  lineStart?, specLineStart?, lineEnd, importInsertions
-/
import Marginalia.Edit.Splice

namespace Marginalia.Edit

open Go (Import ImportDecl Imports SourceUnit Span)

/-! ### Lines -/

/-- The text before an offset. -/
def textBefore (source : List Char) (offset : Nat) : List Char :=
  ((Go.splitAtByte? offset source).map (·.1)).getD source

/-- The text from an offset on. -/
def textFrom (source : List Char) (offset : Nat) : List Char :=
  ((Go.splitAtByte? offset source).map (·.2)).getD []

/-- The part of its line before an offset, and the lines above, nearest first. -/
def linesUpTo (source : List Char) (offset : Nat) : List (List Char) :=
  (Text.splitOn '\n' (textBefore source offset)).reverse

/-- The start of the line of an offset, if only blanks precede the offset there. -/
def lineStart? (source : List Char) (offset : Nat) : Option Nat :=
  match linesUpTo source offset with
  | current :: _ => if current.all Text.isBlank then some (offset - Utf8.size current) else none
  | [] => none

/-- A line that holds only a line comment. -/
def isCommentLine (line : List Char) : Bool :=
  (Text.after? ['/', '/'] (Text.trimStart line)).isSome

/-- The bytes of the comment lines directly above, newlines included. -/
def commentBytes (above : List (List Char)) : Nat :=
  Utf8.size ((above.takeWhile isCommentLine).flatMap (· ++ ['\n']))

/-- The start of the line of an offset, if only blanks precede the offset there, moved up over the
comment lines directly above. -/
def specLineStart? (source : List Char) (offset : Nat) : Option Nat :=
  (lineStart? source offset).map fun start =>
    start - commentBytes ((linesUpTo source offset).drop 1)

/-- The offset where the line of an offset ends. -/
def lineEnd (source : List Char) (offset : Nat) : Nat :=
  offset + Utf8.size ((textFrom source offset).takeWhile (· != '\n'))

/-! ### Insertions -/

/-- An insertion of text at an offset. -/
def insertAt (offset : Nat) (text : String) : Replacement :=
  ⟨⟨offset, offset⟩, Utf8.ofString text⟩

/-- Where an import goes in a parenthesised declaration, and as what text: before the first spec
with a greater path, or else before the closing parenthesis. It has a line of its own if what
follows it begins a line. -/
def placeSpec (source : List Char) (decl : ImportDecl) (close : Nat) (i : Import) :
    Nat × String :=
  match decl.specs.find? fun (_, path) => i.path < path with
  | some (span, _) =>
    match specLineStart? source span.start with
    | some start => (start, "\t" ++ i.render ++ "\n")
    | none => (span.start, i.render ++ "; ")
  | none =>
    match lineStart? source close with
    | some start => (start, "\t" ++ i.render ++ "\n")
    | none => (close, "\n\t" ++ i.render)

/-- The texts to insert, by offset; texts for one offset follow one another. -/
def placeSpecs (source : List Char) (decl : ImportDecl) (close : Nat) (added : Imports) :
    Dict Nat String :=
  added.foldl
    (fun acc i =>
      let (offset, text) := placeSpec source decl close i
      acc.alter offset fun old => old.getD "" ++ text)
    ∅

/-- Insertions into a parenthesised declaration. A closing parenthesis that shares a line with the
last spec moves to a line of its own. -/
def blockInsertions (source : List Char) (decl : ImportDecl) (close : Nat) (added : Imports) :
    List Replacement :=
  (placeSpecs source decl close added).entries.map fun (offset, text) =>
    if offset = close ∧ text.toList.head? ≠ some '\t' then insertAt offset (text ++ "\n")
    else insertAt offset text

/-- The last parenthesised import declaration and the offset of its closing parenthesis. -/
def lastBlock? (decls : List ImportDecl) : Option (ImportDecl × Nat) :=
  decls.reverse.findSome? fun d => d.close.map (d, ·)

/-- The insertions that add imports to a file: into its last parenthesised import declaration, or
else as a new declaration after the last one or after the package clause. -/
def importInsertions (unit : SourceUnit) (added : Imports) : List Replacement :=
  let source := unit.source.toList
  match lastBlock? unit.importDecls with
  | some (decl, close) => blockInsertions source decl close added
  | none =>
    let offset := match unit.importDecls.getLast? with
      | some last => lineEnd source last.span.stop
      | none => unit.packageSpan.stop
    [insertAt offset ("\n\n" ++ added.render)]

end Marginalia.Edit
