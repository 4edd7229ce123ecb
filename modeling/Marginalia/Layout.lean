/-
Module: Marginalia.Layout
Purpose: The canonical layout of source texts.
Main exports:
  Layout.Line, Layout.canonicalize, Layout.protectedSpans
-/
import Marginalia.Go.Lexeme
import Marginalia.Go.Span
import Marginalia.Text.Chars

namespace Marginalia.Layout

open Go (Span Lexeme)

/-!
In the canonical layout no line ends in blanks, no empty line is first or last, no two empty lines
are adjacent and the last line ends in a newline. Text that spans lines inside a comment or a
string literal is protected: its bytes are kept.
-/

/-- A line without its newline, and the offset of its first byte. -/
structure Line where
  start : Nat
  body : List Char
deriving Repr, DecidableEq, Inhabited

/-- The offset of the newline that ends the line. -/
def Line.stop (l : Line) : Nat :=
  l.start + Utf8.size l.body

/-- Pieces between newlines as lines, from an offset on. -/
def placeLines (start : Nat) : List (List Char) → List Line
  | [] => []
  | body :: rest => ⟨start, body⟩ :: placeLines (start + Utf8.size body + 1) rest

/-- The lines of a text; what follows the last newline is a line unless it is empty. -/
def lines (source : List Char) : List Line :=
  let pieces := Text.splitOn '\n' source
  let pieces := if pieces.getLast? = some [] then pieces.dropLast else pieces
  placeLines 0 pieces

/-- How many bytes of a line are kept, and whether the line ends inside a protected span: the line
without the blanks at its end, extended to the last protected byte. -/
def keptFrom (l : Line) (keep : Nat) : List Span → Nat × Bool
  | [] => (keep, false)
  | s :: spans =>
    if l.stop ≤ s.start ∨ s.stop ≤ l.start then keptFrom l keep spans
    else if l.stop < s.stop then (Utf8.size l.body, true)
    else keptFrom l (max keep (s.stop - l.start)) spans

/-- How many bytes of a line are kept, and whether the line ends inside a protected span. -/
def kept (isProtected : List Span) (l : Line) : Nat × Bool :=
  keptFrom l (Utf8.size (Text.trimEnd l.body)) isProtected

/-- The first characters of a text, up to a number of bytes. -/
def takeBytes (n : Nat) (cs : List Char) : List Char :=
  match cs with
  | [] => []
  | c :: rest => if c.utf8Size ≤ n then c :: takeBytes (n - c.utf8Size) rest else []

/-- Write lines. An empty line is held back until another line follows; `written` tells whether
one was written before, `pending` whether an empty line is held back. -/
def write (isProtected : List Span) (written pending : Bool) : List Line → List Char
  | [] => []
  | l :: rest =>
    let (keep, inside) := kept isProtected l
    if keep = 0 ∧ !inside then write isProtected written written rest
    else
      (if pending then ['\n'] else []) ++ takeBytes keep l.body ++
        '\n' :: write isProtected true false rest

/-- The canonical layout of a text with protected spans. -/
def canonicalize (isProtected : List Span) (source : List Char) : List Char :=
  write isProtected false false (lines source)

/-- The comments and string literals of a source text that span lines. -/
def protectedSpans (source : List Char) : List Span :=
  (Lexeme.scan source).filterMap fun l =>
    match l.token with
    | .comment | .raw | .quoted =>
      if l.start.row = l.stop.row then none else some ⟨l.start.offset, l.stop.offset⟩
    | _ => none

end Marginalia.Layout
