/-
Module: Marginalia.Go.Comment
Purpose: Groups of adjacent comments and the text that they hold.
Main exports:
  CommentGroup, CommentGroup.text, isDirective
-/
import Marginalia.Go.Span
import Marginalia.Text.Chars

namespace Marginalia.Go

/-- Adjacent comments, in source order, each as written. -/
structure CommentGroup where
  span : Span
  comments : List String
deriving Repr, DecidableEq, Inhabited

/-- Whether the text after `//` is an instruction to a tool: `line `, `extern ` or `export `, or a
lower-case word, a colon and a lower-case letter. -/
def isDirective (body : List Char) : Bool :=
  ["line ", "extern ", "export "].any (fun word => (Text.after? word.toList body).isSome) ||
  match Text.cut? [':'] body with
  | some (head, rest) =>
    !head.isEmpty && head.all (fun c => c.isLower || c.isDigit) &&
      (match rest with
        | c :: _ => c.isLower
        | [] => false)
  | none => false

/-- The lines that one comment contributes: none for a directive, else its text without the
comment marks and without one blank after `//`. -/
def commentLines (comment : List Char) : List (List Char) :=
  match Text.after? ['/', '/'] comment with
  | some [] => [[]]
  | some (' ' :: body) => [body]
  | some body => if isDirective body then [] else [body]
  | none =>
    match (Text.after? ['/', '*'] comment).bind (Text.before? ['*', '/']) with
    | some body => Text.splitOn '\n' body
    | none => Text.splitOn '\n' comment

/-- Drop the empty lines at the start and of several adjacent empty lines all but one;
`blank` tells whether the line before was empty. -/
def collapse (blank : Bool) : List (List Char) → List (List Char)
  | [] => []
  | [] :: lines => if blank then collapse true lines else [] :: collapse true lines
  | line :: lines => line :: collapse false lines

/-- The lines of a group: cut at the right, without runs of empty lines and without empty lines
at either end. -/
def CommentGroup.lines (group : CommentGroup) : List (List Char) :=
  let raw := group.comments.flatMap fun c => commentLines c.toList
  let kept := collapse true (raw.map Text.trimEnd)
  (kept.reverse.dropWhile List.isEmpty).reverse

/-- The text of a group: its lines, each ended by a newline. -/
def CommentGroup.text (group : CommentGroup) : String :=
  String.ofList (group.lines.flatMap (· ++ ['\n']))

end Marginalia.Go
