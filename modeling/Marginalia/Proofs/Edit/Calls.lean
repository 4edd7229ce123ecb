/-
Module: Marginalia.Proofs.Edit.Calls
Purpose: What replacing spans call after call makes of data: only the bytes given last for each span
  count, and what lies outside all spans stays in order.
Main exports:
  Edit.moved, Edit.getElem?_replaceAll, FileEdit.replaceEach, FileEdit.lastBytes,
  FileEdit.replaced, FileEdit.splice_replaced
-/
import Marginalia.Edit.FileEdit
import Marginalia.Proofs.Dict
import Marginalia.Proofs.Edit.Splice

namespace Marginalia

open Go (SourceUnit Span)

/-! ### Bytes outside the replaced spans -/

namespace Edit

/-- The byte at an offset is in no replaced span. -/
def Outside (rs : List Replacement) (i : Nat) : Prop :=
  ∀ r ∈ rs, i < r.span.start ∨ r.span.stop ≤ i

/-- Where the byte at an offset outside all spans goes when replacements that are in order are made:
it stays where it is before the first span, and stands behind the bytes given for every span that
ends before it. -/
def moved : List Replacement → Nat → Nat
  | [], i => i
  | r :: rs, i =>
    if r.span.stop ≤ i then r.span.start + r.bytes.length + (moved rs i - r.span.stop) else i

/-- A byte does not move over the spans before it. -/
theorem le_moved {rs : List Replacement} {cursor i : Nat} (ahead : ∀ r ∈ rs, cursor ≤ r.span.start)
    (after : cursor ≤ i) : cursor ≤ moved rs i := by
  cases rs with
  | nil => exact after
  | cons r rs =>
    have start : cursor ≤ r.span.start := ahead r List.mem_cons_self
    rw [moved]
    split
    · omega
    · exact after

theorem moved_of_lt {rs : List Replacement} {i : Nat} (before : ∀ r ∈ rs, i < r.span.stop) :
    moved rs i = i := by
  cases rs with
  | nil => rfl
  | cons r rs => rw [moved, if_neg (Nat.not_le.2 (before r List.mem_cons_self))]

theorem getElem?_replaceOne_of_lt {r : Replacement} {data : Bytes} {i : Nat}
    (before : i < r.span.start) (inside : r.span.start ≤ data.length) :
    (replaceOne r data)[i]? = data[i]? := by
  have front : i < (data.take r.span.start).length := by
    rw [List.length_take]
    omega
  rw [replaceOne, List.append_assoc, List.getElem?_append_left front,
    List.getElem?_take_of_lt before]

theorem getElem?_replaceOne_add {r : Replacement} {data : Bytes} (k : Nat)
    (inside : r.span.start ≤ data.length) :
    (replaceOne r data)[r.span.start + r.bytes.length + k]? = data[r.span.stop + k]? := by
  have front : (data.take r.span.start ++ r.bytes).length = r.span.start + r.bytes.length := by
    rw [List.length_append, List.length_take_of_le inside]
  rw [replaceOne, List.getElem?_append_right (by omega), front, Nat.add_sub_cancel_left,
    List.getElem?_drop]

section Ordered

variable {size : Nat} {rs : List Replacement}

/-- Bytes outside the spans keep their order. -/
theorem moved_lt_moved (inRange : ∀ r ∈ rs, r.InRange size)
    (precedes : rs.Pairwise Replacement.Precedes) {i j : Nat} (outside : Outside rs i)
    (outside' : Outside rs j) (less : i < j) : moved rs i < moved rs j := by
  induction rs with
  | nil => exact less
  | cons r rs ih =>
    obtain ⟨ahead, precedes⟩ := List.pairwise_cons.1 precedes
    obtain ⟨range, others⟩ := List.forall_mem_cons.1 inRange
    obtain ⟨side, outside⟩ := List.forall_mem_cons.1 outside
    obtain ⟨side', outside'⟩ := List.forall_mem_cons.1 outside'
    have rest := ih others precedes outside outside'
    unfold Replacement.InRange at range
    rw [moved, moved]
    by_cases before : r.span.stop ≤ i
    · have start := le_moved ahead before
      rw [if_pos before, if_pos (before.trans less.le)]
      omega
    · rw [if_neg before]
      split <;> omega

/-- A byte outside the spans is found where it moved to. -/
theorem getElem?_replaceAll {data : Bytes} (inRange : ∀ r ∈ rs, r.InRange data.length)
    (precedes : rs.Pairwise Replacement.Precedes) {i : Nat} (outside : Outside rs i) :
    (replaceAll rs data)[moved rs i]? = data[i]? := by
  induction rs with
  | nil => rfl
  | cons r rs ih =>
    obtain ⟨ahead, precedes⟩ := List.pairwise_cons.1 precedes
    obtain ⟨range, others⟩ := List.forall_mem_cons.1 inRange
    obtain ⟨side, outside⟩ := List.forall_mem_cons.1 outside
    unfold Replacement.InRange at range
    have rest := ih others precedes outside
    -- the later replacements keep all up to the end of this span
    obtain ⟨out, -, whole⟩ := spliceFrom_eq_ok others ahead precedes
    have inside : r.span.start ≤ (replaceAll rs data).length := by
      rw [← whole, List.length_append, List.length_take]
      omega
    show (replaceOne r (replaceAll rs data))[moved (r :: rs) i]? = data[i]?
    rw [moved]
    rcases side with before | after
    · have stays : moved rs i = i := by
        refine moved_of_lt fun s member => ?_
        have start : r.span.stop ≤ s.span.start := ahead s member
        have range' := others s member
        unfold Replacement.InRange at range'
        omega
      rw [if_neg (by omega), getElem?_replaceOne_of_lt before inside, ← rest, stays]
    · have start := le_moved ahead after
      rw [if_pos after, getElem?_replaceOne_add _ inside, Nat.add_sub_cancel' start, rest]

end Ordered

end Edit

/-! ### Replacing spans call after call -/

namespace FileEdit

/-- Replace spans in turn. -/
def replaceEach (e : FileEdit) (calls : List (Span × Bytes)) : FileEdit :=
  calls.foldl (fun e call => e.replace call.1 call.2) e

/-- The bytes that calls give last for a span. -/
def lastBytes (calls : List (Span × Bytes)) (span : Span) : Option Bytes :=
  (calls.filter (·.1 == span)).getLast?.map (·.2)

theorem lastBytes_cons (call : Span × Bytes) (calls : List (Span × Bytes)) (span : Span) :
    lastBytes (call :: calls) span =
      (lastBytes calls span).or (if span = call.1 then some call.2 else none) := by
  unfold lastBytes
  by_cases same : span = call.1
  · rw [List.filter_cons_of_pos (by simp [same]), List.getLast?_cons, if_pos same]
    cases (calls.filter (·.1 == span)).getLast? with
    | none => rfl
    | some last => rfl
  · rw [List.filter_cons_of_neg (by simp [Ne.symm same]), if_neg same, Option.or_none]

theorem mem_of_lastBytes {calls : List (Span × Bytes)} {span : Span} {bytes : Bytes}
    (last : lastBytes calls span = some bytes) : (span, bytes) ∈ calls := by
  obtain ⟨call, ends, rfl⟩ := Option.map_eq_some_iff.1 last
  obtain ⟨member, same⟩ := List.mem_filter.1 (List.mem_of_getLast? ends)
  obtain rfl : call.1 = span := beq_iff_eq.1 same
  exact member

/-- Calls change nothing but the replaced spans, and of these only the bytes given last count. -/
theorem replaceEach_spec (e : FileEdit) (calls : List (Span × Bytes)) :
    (e.replaceEach calls).unit = e.unit ∧ (e.replaceEach calls).imports = e.imports ∧
      ∀ span, (e.replaceEach calls).nodes.get? span =
        (lastBytes calls span).or (e.nodes.get? span) := by
  induction calls generalizing e with
  | nil => exact ⟨rfl, rfl, fun span => rfl⟩
  | cons call calls ih =>
    obtain ⟨unit, imports, nodes⟩ := ih (e.replace call.1 call.2)
    refine ⟨unit, imports, fun span => ?_⟩
    have first : (e.replace call.1 call.2).nodes.get? span =
        if span = call.1 then some call.2 else e.nodes.get? span := Dict.get?_insert ..
    rw [replaceEach, List.foldl_cons, ← replaceEach, nodes, first, lastBytes_cons]
    cases lastBytes calls span with
    | some bytes => rfl
    | none => split <;> rfl

theorem replaceEach_congr {calls calls' : List (Span × Bytes)} (e : FileEdit)
    (same : ∀ span, lastBytes calls' span = lastBytes calls span) :
    e.replaceEach calls' = e.replaceEach calls := by
  obtain ⟨unit, imports, nodes⟩ := replaceEach_spec e calls
  obtain ⟨unit', imports', nodes'⟩ := replaceEach_spec e calls'
  have equal : (e.replaceEach calls').nodes = (e.replaceEach calls).nodes := by
    apply Dict.ext_get?
    intro span
    rw [nodes, nodes', same]
  cases left : e.replaceEach calls' with
  | mk u i n =>
    cases right : e.replaceEach calls with
    | mk u' i' n' => simp_all

section NewEdit

variable (unit : SourceUnit) (calls : List (Span × Bytes))

/-- The spans that calls replace, in order, each with the bytes given last for it. -/
def replaced : List Edit.Replacement :=
  ((ofUnit unit).replaceEach calls).replacements

theorem get?_nodes_new (span : Span) :
    ((ofUnit unit).replaceEach calls).nodes.get? span = lastBytes calls span := by
  obtain ⟨-, -, nodes⟩ := replaceEach_spec (ofUnit unit) calls
  rw [nodes]
  exact Option.or_none

/-- Without added imports there is nothing to change but the replaced spans, which are kept in
order. -/
theorem replaced_eq : replaced unit calls =
    ((ofUnit unit).replaceEach calls).nodes.entries.map fun entry => ⟨entry.1, entry.2⟩ := by
  obtain ⟨same, imports, -⟩ := replaceEach_spec (ofUnit unit) calls
  have unadded : ((ofUnit unit).replaceEach calls).added = [] := by
    have known : unit.imports.filter (fun i => !unit.imports.contains i) = [] := by
      rw [List.filter_eq_nil_iff]
      intro i member
      simp [member]
    rw [added, same, imports]
    show Go.Imports.inOrder (unit.imports.filter fun i => !unit.imports.contains i) = []
    rw [known, Go.Imports.inOrder, List.mergeSort_nil, Go.Imports.dropRepeats]
    simp
  rw [replaced, replacements, unadded, List.isEmpty_nil, if_pos rfl, List.append_nil]
  refine List.mergeSort_of_pairwise ?_
  rw [List.pairwise_map]
  exact ((ofUnit unit).replaceEach calls).nodes.sorted.imp fun less => by simp [less]

theorem mem_replaced_iff (r : Edit.Replacement) :
    r ∈ replaced unit calls ↔ lastBytes calls r.span = some r.bytes := by
  rw [replaced_eq, List.mem_map, ← get?_nodes_new unit, Dict.get?_eq_some_iff]
  constructor
  · rintro ⟨entry, member, rfl⟩
    exact member
  · intro member
    exact ⟨_, member, rfl⟩

theorem sorted_replaced :
    (replaced unit calls).Pairwise fun a b => compare a.span b.span = .lt := by
  rw [replaced_eq, List.pairwise_map]
  exact ((ofUnit unit).replaceEach calls).nodes.sorted

/-- No span is replaced twice. -/
theorem distinct_replaced : (replaced unit calls).Pairwise fun a b => a.span ≠ b.span := by
  refine (sorted_replaced unit calls).imp fun {a b} less same => ?_
  simp [same, Std.ReflCmp.compare_self] at less

variable {unit calls}

/-- Replacing spans call after call, where the spans lie in the data and are disjoint unless they
are the same, makes of the data what replacing one span after the other from the last makes of it.
The spans replaced are those of the calls, each once, with the bytes given last for it; so only
these bytes count, whatever the order of the calls for different spans. What lies outside all spans
is kept in its order. -/
theorem splice_replaced (data : Bytes)
    (inRange : ∀ call ∈ calls, call.1.start ≤ call.1.stop ∧ call.1.stop ≤ data.length)
    (disjoint : ∀ a ∈ calls, ∀ b ∈ calls, a.1 ≠ b.1 → a.1.Disjoint b.1) :
    Edit.splice data (replaced unit calls) = .ok (Edit.replaceAll (replaced unit calls) data) ∧
    ((∀ r, r ∈ replaced unit calls ↔ lastBytes calls r.span = some r.bytes) ∧
      (replaced unit calls).Pairwise fun a b => a.Precedes b ∧ a.span ≠ b.span) ∧
    (∀ calls', (∀ span, lastBytes calls' span = lastBytes calls span) →
      Edit.splice data (replaced unit calls') =
        .ok (Edit.replaceAll (replaced unit calls) data)) ∧
    (∀ i, Edit.Outside (replaced unit calls) i →
      (Edit.replaceAll (replaced unit calls) data)[Edit.moved (replaced unit calls) i]? =
        data[i]?) ∧
    (∀ i j, Edit.Outside (replaced unit calls) i → Edit.Outside (replaced unit calls) j → i < j →
      Edit.moved (replaced unit calls) i < Edit.moved (replaced unit calls) j) := by
  have given : ∀ r ∈ replaced unit calls, (r.span, r.bytes) ∈ calls :=
    fun r member => mem_of_lastBytes ((mem_replaced_iff unit calls r).1 member)
  have within : ∀ r ∈ replaced unit calls, r.InRange data.length :=
    fun r member => inRange _ (given r member)
  have distinct := distinct_replaced unit calls
  have apart : (replaced unit calls).Pairwise fun a b => a.span.Disjoint b.span :=
    distinct.imp_of_mem fun inA inB => disjoint _ (given _ inA) _ (given _ inB)
  have sorted : (replaced unit calls).Pairwise fun a b => (compare a.span b.span).isLE :=
    (sorted_replaced unit calls).imp fun less => by simp [less]
  have precedes := (Edit.pairwise_precedes_iff sorted within).2 apart
  have spliced : Edit.splice data (replaced unit calls) =
      .ok (Edit.replaceAll (replaced unit calls) data) := by
    obtain ⟨out, made, whole⟩ :=
      Edit.spliceFrom_eq_ok within (fun r _ => Nat.zero_le r.span.start) precedes
    rw [← whole]
    exact made
  refine ⟨spliced, ⟨mem_replaced_iff unit calls, precedes.and distinct⟩, ?_, ?_, ?_⟩
  · intro calls' same
    have equal : replaced unit calls' = replaced unit calls := by
      rw [replaced, replaced, replaceEach_congr _ same]
    rw [equal, spliced]
  · intro i outside
    exact Edit.getElem?_replaceAll within precedes outside
  · intro i j outside outside' less
    exact Edit.moved_lt_moved within precedes outside outside' less

/-- An insertion right before a replaced span, one that touches it, and a span that is given
twice. -/
theorem splice_replaced_touching :
    let calls : List (Span × Bytes) :=
      [(⟨4, 6⟩, [1]), (⟨2, 2⟩, [7, 8]), (⟨2, 4⟩, []), (⟨2, 2⟩, [9])]
    let data : Bytes := [10, 11, 12, 13, 14, 15, 16]
    (∀ call ∈ calls, call.1.start ≤ call.1.stop ∧ call.1.stop ≤ data.length) ∧
    (∀ a ∈ calls, ∀ b ∈ calls, a.1 ≠ b.1 → a.1.Disjoint b.1) ∧
    Edit.splice data (replaced default calls) = .ok [10, 11, 9, 1, 16] ∧
    [10, 11, 9, 1, 16][Edit.moved (replaced default calls) 6]? = some (16 : UInt8) := by
  intro calls data
  have inRange : ∀ call ∈ calls, call.1.start ≤ call.1.stop ∧ call.1.stop ≤ data.length := by
    decide
  have disjoint : ∀ a ∈ calls, ∀ b ∈ calls, a.1 ≠ b.1 → a.1.Disjoint b.1 := by
    unfold Go.Span.Disjoint
    decide
  have listed : replaced default calls = [⟨⟨2, 2⟩, [9]⟩, ⟨⟨2, 4⟩, []⟩, ⟨⟨4, 6⟩, [1]⟩] := by
    rw [replaced_eq]
    rfl
  obtain ⟨spliced, -, -, kept, -⟩ := @splice_replaced default calls data inRange disjoint
  rw [listed] at *
  have outside : Edit.Outside [⟨⟨2, 2⟩, [9]⟩, ⟨⟨2, 4⟩, []⟩, ⟨⟨4, 6⟩, [1]⟩] 6 := by
    unfold Edit.Outside
    decide
  exact ⟨inRange, disjoint, spliced, kept 6 outside⟩

end NewEdit

end FileEdit
end Marginalia
