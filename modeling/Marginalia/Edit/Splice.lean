/-
Module: Marginalia.Edit.Splice
Purpose: Replacing spans of a file by other bytes.
Main exports:
  Replacement, splice, spanOrder
-/
import Marginalia.Error

namespace Marginalia.Edit

open Go (Span)

/-- Spans are ordered by where they start, then by where they stop. -/
instance spanOrder : Ord Span where
  compare := compareLex (compareOn Span.start) (compareOn Span.stop)

instance : Std.TransOrd Span :=
  inferInstanceAs (Std.TransCmp (compareLex (compareOn Span.start) (compareOn Span.stop)))

instance : Std.LawfulEqOrd Span where
  eq_of_compare {a b} h := by
    have h : (compareLex (compareOn Span.start) (compareOn Span.stop)) a b = .eq := h
    simp only [compareLex, compareOn, Ordering.then_eq_eq, Nat.compare_eq_eq] at h
    cases a
    cases b
    simp_all

/-- A span and the bytes to put in its place. -/
structure Replacement where
  span : Span
  bytes : Bytes
deriving Repr, DecidableEq, Inhabited

/-- Replacements in order of their spans; those of one span keep their order. -/
def inOrder (rs : List Replacement) : List Replacement :=
  rs.mergeSort fun a b => (compare a.span b.span).isLE

/-- Apply replacements that are in order to the rest of some data, from the offset `cursor` on. A
replacement must lie within the data and after the ones before it. -/
def spliceFrom (size cursor : Nat) (rest : Bytes) : List Replacement → Except PatchFault Bytes
  | [] => .ok rest
  | r :: rs =>
    if r.span.stop < r.span.start ∨ size < r.span.stop then .error (.outside r.span size)
    else if r.span.start < cursor then .error (.overlap r.span)
    else
      (spliceFrom size r.span.stop (rest.drop (r.span.stop - cursor)) rs).map fun tail =>
        rest.take (r.span.start - cursor) ++ r.bytes ++ tail

/-- Apply replacements that are in order to data. -/
def splice (data : Bytes) (rs : List Replacement) : Except PatchFault Bytes :=
  spliceFrom data.length 0 data rs

end Marginalia.Edit
