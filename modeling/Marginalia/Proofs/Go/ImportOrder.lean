/-
Module: Marginalia.Proofs.Go.ImportOrder
Purpose: Import lists in order: by path, then by alias, and without repetition.
Main exports:
  Import.order, Import.path_le_of_le, Imports.inOrder_sorted, Imports.nodup_inOrder,
  Imports.mem_addedSince
-/
import Marginalia.Go.Import
import Mathlib.Data.List.Sort
import Mathlib.Tactic

namespace Marginalia.Go

namespace Import

/-- Imports compare by path, then by alias, a missing alias first. -/
def order : Import → Import → Ordering :=
  compareLex (compareOn path) (compareOn name)

instance : Std.TransCmp order :=
  inferInstanceAs (Std.TransCmp (compareLex (compareOn path) (compareOn name)))

instance : Std.LawfulEqCmp order where
  eq_of_compare {a b} same := by
    simp only [order, compareLex, compareOn, Ordering.then_eq_eq] at same
    cases a
    cases b
    rw [Import.mk.injEq]
    exact ⟨Std.LawfulEqOrd.eq_of_compare same.2, Std.LawfulEqOrd.eq_of_compare same.1⟩

theorem le_eq_isLE (a b : Import) : le a b = (order a b).isLE := by
  rw [le, order, compareLex, compareOn, compareOn]
  cases compare a.path b.path with
  | lt => rfl
  | gt => rfl
  | eq =>
    cases a.name with
    | none => cases b.name <;> rfl
    | some x =>
      cases b.name with
      | none => rfl
      | some y =>
        show (compare x y != .gt) = (compare x y).isLE
        cases compare x y <;> rfl

theorem le_trans {a b c : Import} (ab : le a b) (bc : le b c) : le a c := by
  rw [le_eq_isLE] at ab bc ⊢
  exact Std.TransCmp.isLE_trans ab bc

theorem le_total (a b : Import) : le a b || le b a := by
  have swap : order b a = (order a b).swap := Std.OrientedCmp.eq_swap
  rw [le_eq_isLE, le_eq_isLE, swap]
  cases order a b <;> rfl

theorem le_antisymm {a b : Import} (ab : le a b) (ba : le b a) : a = b := by
  rw [le_eq_isLE] at ab ba
  have same : order a b = .eq := Std.OrientedCmp.isLE_antisymm ab ba
  exact Std.LawfulEqCmp.eq_of_compare same

theorem path_le_of_le {a b : Import} (ab : le a b) : a.path ≤ b.path := by
  rw [← String.not_lt]
  intro less
  have greater : compare a.path b.path = .gt :=
    Std.OrientedCmp.gt_iff_lt.2 (compareOfLessAndEq_eq_lt.2 less)
  rw [le, greater] at ab
  cases ab

end Import

namespace Imports

theorem dropRepeats_sublist (imports : Imports) : (dropRepeats imports).Sublist imports := by
  fun_induction dropRepeats imports with
  | case1 a rest ih => exact ih.cons a
  | case2 a b rest differ ih => exact ih.cons_cons a
  | case3 imports => exact .refl _

theorem mem_dropRepeats {i : Import} (imports : Imports) :
    i ∈ dropRepeats imports ↔ i ∈ imports := by
  fun_induction dropRepeats imports with
  | case1 a rest ih => simp [ih]
  | case2 a b rest differ ih => simp [ih]
  | case3 imports => rfl

/-- In a sorted list equal imports are neighbours, so none is left twice. -/
theorem nodup_dropRepeats {imports : Imports} (sorted : imports.Pairwise (Import.le · ·)) :
    (dropRepeats imports).Nodup := by
  fun_induction dropRepeats imports with
  | case1 a rest ih => exact ih (List.pairwise_cons.1 sorted).2
  | case2 a b rest differ ih =>
    obtain ⟨first, others⟩ := List.pairwise_cons.1 sorted
    refine List.nodup_cons.2 ⟨?_, ih others⟩
    rw [mem_dropRepeats, List.mem_cons]
    rintro (same | later)
    · exact differ same
    · have ba := (List.pairwise_cons.1 others).1 a later
      exact differ (Import.le_antisymm (first b List.mem_cons_self) ba)
  | case3 imports short =>
    rcases imports with _ | ⟨a, _ | ⟨b, rest⟩⟩
    · exact .nil
    · exact List.nodup_singleton a
    · exact absurd rfl (short a b rest)

theorem sorted_mergeSort (imports : Imports) :
    (List.mergeSort imports Import.le).Pairwise (Import.le · ·) := by
  refine List.pairwise_mergeSort ?_ ?_ imports
  · intro a b c
    exact Import.le_trans
  · exact Import.le_total

theorem inOrder_sorted (imports : Imports) : imports.inOrder.Pairwise (Import.le · ·) :=
  (sorted_mergeSort imports).sublist (dropRepeats_sublist _)

theorem nodup_inOrder (imports : Imports) : imports.inOrder.Nodup :=
  nodup_dropRepeats (sorted_mergeSort imports)

theorem mem_inOrder {i : Import} {imports : Imports} : i ∈ imports.inOrder ↔ i ∈ imports := by
  rw [inOrder, mem_dropRepeats, List.mem_mergeSort]

theorem mem_addedSince {i : Import} {imports base : Imports} :
    i ∈ imports.addedSince base ↔ i ∈ imports ∧ i ∉ base := by
  rw [addedSince, mem_inOrder, List.mem_filter]
  simp

end Imports
end Marginalia.Go
