/-
Module: Marginalia.Go.Span
Purpose: Extents of source text in bytes, and the text at an extent.
Main exports:
  Span, Span.slice?, Span.text
-/
import Marginalia.Text.Utf8

namespace Marginalia.Go

/-- A half-open range of byte offsets. -/
structure Span where
  start : Nat
  stop : Nat
deriving Repr, DecidableEq, Inhabited

/-- Cut a text after `n` bytes; there is no result inside a character or past the end. -/
def splitAtByte? : (n : Nat) → List Char → Option (List Char × List Char)
  | 0, cs => some ([], cs)
  | _ + 1, [] => none
  | n + 1, c :: cs =>
    if c.utf8Size ≤ n + 1 then
      (splitAtByte? (n + 1 - c.utf8Size) cs).map fun (head, rest) => (c :: head, rest)
    else none

/-- The text at a span; there is none when the span is reversed, ends past the text or cuts a
character. -/
def Span.slice? (span : Span) (cs : List Char) : Option (List Char) :=
  if span.stop < span.start then none
  else do
    let (_, rest) ← splitAtByte? span.start cs
    let (inner, _) ← splitAtByte? (span.stop - span.start) rest
    return inner

/-- The text at a span, empty when there is none. -/
def Span.text (span : Span) (source : String) : String :=
  String.ofList ((span.slice? source.toList).getD [])

end Marginalia.Go
