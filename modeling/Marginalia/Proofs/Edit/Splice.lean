/-
Module: Marginalia.Proofs.Edit.Splice
Purpose: Which replacements can be spliced into data, and what the result is.
Main exports:
  Span.Disjoint, Replacement.InRange, replaceOne, replaceAll, pairwise_precedes_iff,
  splice_inOrder_eq_ok_iff
-/
import Marginalia.Edit.Splice
import Mathlib.Tactic

namespace Marginalia

/-- One of two spans ends before the other starts; they may touch, and each may be empty. -/
def Go.Span.Disjoint (a b : Go.Span) : Prop :=
  a.stop ≤ b.start ∨ b.stop ≤ a.start

theorem Go.Span.Disjoint.symm {a b : Go.Span} (apart : a.Disjoint b) : b.Disjoint a :=
  Or.symm apart

namespace Edit

/-- The replaced span lies within data of a size. -/
def Replacement.InRange (size : Nat) (r : Replacement) : Prop :=
  r.span.start ≤ r.span.stop ∧ r.span.stop ≤ size

/-- The replaced span ends before another starts. -/
def Replacement.Precedes (a b : Replacement) : Prop :=
  a.span.stop ≤ b.span.start

/-- Put the bytes of one replacement in the place of its span. -/
def replaceOne (r : Replacement) (data : Bytes) : Bytes :=
  data.take r.span.start ++ r.bytes ++ data.drop r.span.stop

/-- Make replacements one at a time, the last one first. -/
def replaceAll (rs : List Replacement) (data : Bytes) : Bytes :=
  rs.foldr replaceOne data

/-! ### The order of replacements -/

/-- Spans are in order when they start in order, and of two that start together the one that stops
first comes first. -/
theorem isLE_compare_span {a b : Go.Span} : (compare a b).isLE ↔
    a.start < b.start ∨ (a.start = b.start ∧ a.stop ≤ b.stop) := by
  show (compareLex (compareOn Go.Span.start) (compareOn Go.Span.stop) a b).isLE ↔ _
  simp only [compareLex, compareOn, Ordering.isLE_then_iff_or, Nat.compare_eq_lt,
    Nat.compare_eq_eq, Nat.isLE_compare]

theorem inOrder_perm (rs : List Replacement) : (inOrder rs).Perm rs :=
  List.mergeSort_perm _ _

theorem inOrder_sorted (rs : List Replacement) :
    (inOrder rs).Pairwise fun a b => (compare a.span b.span).isLE := by
  refine List.pairwise_mergeSort ?_ ?_ rs
  · intro a b c
    simp only [isLE_compare_span]
    omega
  · intro a b
    simp only [Bool.or_eq_true, isLE_compare_span]
    omega

/-- Of replacements that are in order and in range, any two are disjoint exactly when each ends
before the next ones start. Two that are empty and at the same offset are both. -/
theorem pairwise_precedes_iff {size : Nat} {rs : List Replacement}
    (sorted : rs.Pairwise fun a b => (compare a.span b.span).isLE)
    (inRange : ∀ r ∈ rs, r.InRange size) :
    rs.Pairwise Replacement.Precedes ↔ rs.Pairwise fun a b => a.span.Disjoint b.span := by
  constructor
  · intro precedes
    exact precedes.imp fun before => Or.inl before
  · intro disjoint
    refine (disjoint.and sorted).imp_of_mem ?_
    rintro a b inA inB ⟨apart, le⟩
    have rangeA := inRange a inA
    have rangeB := inRange b inB
    rw [isLE_compare_span] at le
    unfold Replacement.InRange at rangeA rangeB
    unfold Replacement.Precedes
    rcases apart with before | after
    · exact before
    · omega

/-! ### Splicing -/

/-- Replacements that are in range, start at or after the cursor and precede one another are
spliced; the result continues what stands before the cursor. -/
theorem spliceFrom_eq_ok {data : Bytes} {cursor : Nat} {rs : List Replacement}
    (inRange : ∀ r ∈ rs, r.InRange data.length) (ahead : ∀ r ∈ rs, cursor ≤ r.span.start)
    (precedes : rs.Pairwise Replacement.Precedes) :
    ∃ out, spliceFrom data.length cursor (data.drop cursor) rs = .ok out ∧
      data.take cursor ++ out = replaceAll rs data := by
  induction rs generalizing cursor with
  | nil => exact ⟨_, rfl, List.take_append_drop cursor data⟩
  | cons r rs ih =>
    rw [List.pairwise_cons] at precedes
    have range : r.InRange data.length := inRange r List.mem_cons_self
    have start : cursor ≤ r.span.start := ahead r List.mem_cons_self
    have others : ∀ s ∈ rs, s.InRange data.length :=
      fun s member => inRange s (List.mem_cons_of_mem _ member)
    obtain ⟨tail, spliced, whole⟩ := ih others precedes.1 precedes.2
    unfold Replacement.InRange at range
    have rest : (data.drop cursor).drop (r.span.stop - cursor) = data.drop r.span.stop := by
      rw [List.drop_drop]
      congr 1
      omega
    refine ⟨(data.drop cursor).take (r.span.start - cursor) ++ r.bytes ++ tail, ?_, ?_⟩
    · have inside : ¬(r.span.stop < r.span.start ∨ data.length < r.span.stop) := by omega
      have after : ¬r.span.start < cursor := by omega
      simp [spliceFrom, inside, after, rest, spliced, Except.map]
    · -- what the later replacements made keeps the data up to the end of this span
      have kept : (data.take r.span.stop ++ tail).take r.span.start = data.take r.span.start := by
        rw [List.take_append_of_le_length (by simp; omega), List.take_take]
        congr 1
        omega
      have dropped : (data.take r.span.stop ++ tail).drop r.span.stop = tail := by
        rw [List.drop_append_of_le_length (by simp; omega), List.drop_take]
        simp
      have head : data.take cursor ++ (data.drop cursor).take (r.span.start - cursor) =
          data.take r.span.start := by
        rw [← List.take_add]
        congr 1
        omega
      show _ = replaceOne r (replaceAll rs data)
      rw [← whole, replaceOne, kept, dropped, ← head]
      simp

/-- Splicing succeeds only on replacements in range that start at or after the cursor and precede
one another. -/
theorem precedes_of_spliceFrom {size cursor : Nat} {rest out : Bytes} {rs : List Replacement}
    (spliced : spliceFrom size cursor rest rs = .ok out) :
    (∀ r ∈ rs, r.InRange size) ∧ (∀ r ∈ rs, cursor ≤ r.span.start) ∧
      rs.Pairwise Replacement.Precedes := by
  induction rs generalizing cursor rest out with
  | nil => simp
  | cons r rs ih =>
    unfold spliceFrom at spliced
    split_ifs at spliced with outside overlap
    cases tail : spliceFrom size r.span.stop (rest.drop (r.span.stop - cursor)) rs with
    | error fault => simp [tail, Except.map] at spliced
    | ok bytes =>
      obtain ⟨inRange, ahead, precedes⟩ := ih tail
      have range : r.InRange size := by
        unfold Replacement.InRange
        omega
      refine ⟨List.forall_mem_cons.2 ⟨range, inRange⟩, ?_, List.pairwise_cons.2 ⟨ahead, precedes⟩⟩
      intro s member
      rcases List.mem_cons.1 member with rfl | later
      · omega
      · have := ahead s later
        unfold Replacement.InRange at range
        omega

/-- Ordered replacements can be spliced into data exactly when they lie in it and any two are
disjoint, and the result is to make them one at a time from the last. -/
theorem splice_inOrder_eq_ok_iff {data out : Bytes} {rs : List Replacement} :
    splice data (inOrder rs) = .ok out ↔
      (∀ r ∈ rs, r.InRange data.length) ∧
        (rs.Pairwise fun a b => a.span.Disjoint b.span) ∧ out = replaceAll (inOrder rs) data := by
  have perm := inOrder_perm rs
  have range_iff : (∀ r ∈ inOrder rs, r.InRange data.length) ↔ ∀ r ∈ rs, r.InRange data.length := by
    simp only [perm.mem_iff]
  have disjoint_iff := perm.pairwise_iff
    (R := fun a b : Replacement => a.span.Disjoint b.span) fun apart => apart.symm
  constructor
  · intro spliced
    obtain ⟨inRange, -, precedes⟩ := precedes_of_spliceFrom spliced
    obtain ⟨bytes, same, whole⟩ := spliceFrom_eq_ok inRange (fun r _ => Nat.zero_le _) precedes
    have disjoint := (pairwise_precedes_iff (inOrder_sorted rs) inRange).1 precedes
    refine ⟨range_iff.1 inRange, disjoint_iff.1 disjoint, ?_⟩
    have same : splice data (inOrder rs) = .ok bytes := by simpa [splice] using same
    rw [same] at spliced
    cases spliced
    simpa using whole
  · rintro ⟨inRange, disjoint, rfl⟩
    have inRange' := range_iff.2 inRange
    have precedes :=
      (pairwise_precedes_iff (inOrder_sorted rs) inRange').2 (disjoint_iff.2 disjoint)
    obtain ⟨bytes, same, whole⟩ := spliceFrom_eq_ok inRange' (fun r _ => Nat.zero_le _) precedes
    rw [← whole]
    simpa [splice] using same

end Edit
end Marginalia
