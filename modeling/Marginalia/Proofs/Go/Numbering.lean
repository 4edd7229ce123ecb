/-
Module: Marginalia.Proofs.Go.Numbering
Purpose: The search for a free name ends, and adding an import appends one entry at most.
Main exports:
  Imports.InUse, Imports.trial, Imports.Stops, Imports.exists_stops, Imports.OnePerPath,
  Imports.OnePerPath.addNamed, Imports.addNamed_appends
-/
import Marginalia.Proofs.Go.FreshName
import Mathlib.Logic.Function.Iterate
import Mathlib.Order.Bounds.Defs

namespace Marginalia.Go.Imports

/-- A visible import has the name. -/
def InUse (imports : Imports) (name : String) : Prop :=
  ∃ i ∈ imports, i.isHidden = false ∧ i.localName = name

theorem mem_taken_iff {imports : Imports} {name : String} :
    name ∈ imports.taken ↔ InUse imports name := by
  simp [taken, visible, InUse, and_assoc]

/-! ### The search for a free name

The search holds a name, first the wanted one, and the number that comes next, first 2. While the
name is in use, it goes on to the wanted name with the next number.
-/

/-- One round of the search. -/
def nextTrial (package : String) (state : String × Nat) : String × Nat :=
  (numbered package state.2, state.2 + 1)

/-- The name that the search holds after some rounds. -/
def trial (package : String) (rounds : Nat) : String :=
  ((nextTrial package)^[rounds] (package, 2)).1

/-- The search goes on for some rounds and no further. -/
structure Stops (imports : Imports) (package : String) (rounds : Nat) : Prop where
  passed : ∀ k < rounds, InUse imports (trial package k)
  free : ¬InUse imports (trial package rounds)

@[simp]
theorem trial_zero (package : String) : trial package 0 = package := rfl

@[simp]
theorem trial_succ (package : String) (rounds : Nat) :
    trial package (rounds + 1) = numbered package (rounds + 2) := by
  have number : ((nextTrial package)^[rounds] (package, 2)).2 = rounds + 2 := by
    induction rounds with
    | zero => rfl
    | succ rounds ih => rw [Function.iterate_succ_apply', nextTrial, ih]
  rw [trial, Function.iterate_succ_apply', nextTrial, number]

/-- No name is tried twice. -/
theorem trial_injective (package : String) : Function.Injective (trial package) := by
  intro a b same
  cases a with
  | zero =>
    cases b with
    | zero => rfl
    | succ b =>
      rw [trial_zero, trial_succ] at same
      exact absurd same.symm (numbered_ne_self package _)
  | succ a =>
    cases b with
    | zero =>
      rw [trial_zero, trial_succ] at same
      exact absurd same (numbered_ne_self package _)
    | succ b =>
      rw [trial_succ, trial_succ] at same
      have number := numbered_injective package same
      omega

/-- The names that were passed are distinct and in use, so there are no more of them than
imports. -/
theorem Stops.le_length {imports : Imports} {package : String} {rounds : Nat}
    (stops : Stops imports package rounds) : rounds ≤ imports.length := by
  have used : (List.range rounds).map (trial package) ⊆ imports.taken := by
    intro name member
    obtain ⟨k, below, rfl⟩ := List.mem_map.1 member
    exact mem_taken_iff.2 (stops.passed k (List.mem_range.1 below))
  have distinct : ((List.range rounds).map (trial package)).Nodup :=
    List.nodup_range.map (trial_injective package)
  have few : rounds ≤ imports.taken.length := by
    simpa using (distinct.subperm used).length_le
  have visible : imports.taken.length ≤ imports.length := by
    rw [taken, List.length_map]
    exact List.length_filter_le _ _
  exact few.trans visible

/-- The search stops, with the name that is given out. -/
theorem exists_stops (imports : Imports) (package : String) :
    ∃ rounds, Stops imports package rounds ∧
      fresh imports.taken package = trial package rounds := by
  have free := fresh_notMem imports.taken package
  rw [mem_taken_iff] at free
  rcases fresh_cases imports.taken package with ⟨-, same⟩ | ⟨taken, n, least, same, passed⟩
  · exact ⟨0, ⟨by simp, same ▸ free⟩, same⟩
  · obtain ⟨rounds, rfl⟩ := Nat.exists_eq_add_of_le' least
    rw [same, ← trial_succ] at free
    refine ⟨rounds + 1, ⟨?_, free⟩, same.trans (trial_succ package rounds).symm⟩
    intro k below
    rw [← mem_taken_iff]
    cases k with
    | zero => exact taken
    | succ k =>
      rw [trial_succ]
      exact passed (k + 2) (by omega) (by omega)

/-- A free name is kept. -/
theorem Stops.trial_eq {imports : Imports} {package : String} {rounds : Nat}
    (stops : Stops imports package rounds) (unused : ¬InUse imports package) :
    trial package rounds = package := by
  cases rounds with
  | zero => exact trial_zero package
  | succ rounds => exact absurd (stops.passed 0 (by omega)) unused

/-- A name in use gets the least number from 2 on that makes it free. -/
theorem Stops.exists_isLeast {imports : Imports} {package : String} {rounds : Nat}
    (stops : Stops imports package rounds) (used : InUse imports package) :
    ∃ n, trial package rounds = numbered package n ∧
      IsLeast {n | 2 ≤ n ∧ ¬InUse imports (numbered package n)} n := by
  cases rounds with
  | zero => exact absurd used stops.free
  | succ rounds =>
    have free := stops.free
    rw [trial_succ] at free
    refine ⟨rounds + 2, trial_succ package rounds, ⟨by omega, free⟩, ?_⟩
    rintro k ⟨from_two, unused⟩
    by_contra below
    obtain ⟨j, rfl⟩ := Nat.exists_eq_add_of_le' from_two
    have passed := stops.passed (j + 1) (by omega)
    rw [trial_succ] at passed
    exact unused passed

/-! ### Paths that are imported once -/

/-- No path has two visible imports. -/
def OnePerPath (imports : Imports) : Prop :=
  ∀ path, imports.countP (fun i => i.path = path && !i.isHidden) ≤ 1

/-- The list after calls, each for a path and the name of its package. -/
def addAll (imports : Imports) (calls : List (String × String)) : Imports :=
  calls.foldl (fun list call => (list.addNamed call.1 call.2).2) imports

/-- One call keeps the paths apart: it appends an import of a path that has no visible one. -/
theorem OnePerPath.addNamed {imports : Imports} (one : OnePerPath imports)
    (path package : String) : OnePerPath (imports.addNamed path package).2 := by
  rcases addNamed_cases imports path package with ⟨i, -, -, -, result⟩ | ⟨hidden, result⟩
  · rwa [result]
  · rw [result]
    intro other
    rw [List.countP_append]
    by_cases same : path = other
    · have absent : imports.countP (fun i => i.path = other && !i.isHidden) = 0 := by
        rw [List.countP_eq_zero]
        intro i member
        simpa [← same] using hidden i member
      have last : [written path (fresh imports.taken package)].countP
          (fun i => i.path = other && !i.isHidden) ≤ 1 := List.countP_le_length
      simpa [absent] using last
    · simpa [written_path, same] using one other

theorem OnePerPath.addAll {imports : Imports} (one : OnePerPath imports)
    (calls : List (String × String)) : OnePerPath (imports.addAll calls) := by
  induction calls generalizing imports with
  | nil => exact one
  | cons call calls ih => exact ih (one.addNamed call.1 call.2)

/-! ### What a call appends -/

/-- The search for a free name ends, after as many rounds as there are imports at most. A call for a
path that has a visible import leaves the list, and any other call appends one import of its path,
under the name of the package if that is free and else with the least number from 2 on that makes it
free. No calls give a path a second visible import. -/
theorem addNamed_appends (imports : Imports) :
    (∀ package, ∃ rounds ≤ imports.length, Stops imports package rounds ∧
      fresh imports.taken package = trial package rounds) ∧
    (∀ path package, (∃ i ∈ imports, i.path = path ∧ i.isHidden = false) →
      (imports.addNamed path package).2 = imports) ∧
    (∀ path package, (∀ i ∈ imports, i.path = path → i.isHidden = true) →
      let name := (imports.addNamed path package).1
      (imports.addNamed path package).2 = imports ++ [written path name] ∧
      (written path name).path = path ∧
      (¬InUse imports package → name = package) ∧
      (InUse imports package → ∃ n, name = numbered package n ∧
        IsLeast {n | 2 ≤ n ∧ ¬InUse imports (numbered package n)} n)) ∧
    ∀ calls, OnePerPath imports → OnePerPath (imports.addAll calls) := by
  refine ⟨?_, ?_, ?_, fun calls one => one.addAll calls⟩
  · intro package
    obtain ⟨rounds, stops, same⟩ := exists_stops imports package
    exact ⟨rounds, stops.le_length, stops, same⟩
  · rintro path package ⟨i, member, same, visible⟩
    rcases addNamed_cases imports path package with ⟨j, -, -, -, result⟩ | ⟨hidden, -⟩
    · rw [result]
    · rw [hidden i member same] at visible
      cases visible
  · intro path package hidden name
    obtain ⟨rounds, stops, same⟩ := exists_stops imports package
    rcases addNamed_cases imports path package with ⟨i, member, here, visible, -⟩ | ⟨-, result⟩
    · rw [hidden i member here] at visible
      cases visible
    · have named : name = trial package rounds := (congrArg Prod.fst result).trans same
      refine ⟨?_, rfl, ?_, ?_⟩
      · rw [result, named, same]
      · intro unused
        rw [named, stops.trial_eq unused]
      · intro used
        rw [named]
        exact stops.exists_isLeast used

/-- With two names in use, one of them an alias, a call gets the third; the import for its effects
of the same path does not count. -/
theorem addNamed_appends_third :
    let imports : Imports :=
      [⟨none, "time"⟩, ⟨some "time2", "host.com/time"⟩, ⟨some "_", "other.com/time"⟩]
    (∀ i ∈ imports, i.path = "other.com/time" → i.isHidden = true) ∧ InUse imports "time" ∧
      (∃ n, (imports.addNamed "other.com/time" "time").1 = numbered "time" n ∧
        IsLeast {n | 2 ≤ n ∧ ¬InUse imports (numbered "time" n)} n) ∧
      OnePerPath imports ∧ OnePerPath (imports.addAll [("other.com/time", "time")]) := by
  intro imports
  have hidden : ∀ i ∈ imports, i.path = "other.com/time" → i.isHidden = true := by decide
  have used : InUse imports "time" := ⟨⟨none, "time"⟩, by decide, by decide, by decide +kernel⟩
  have one : OnePerPath imports := by
    intro path
    by_cases first : "time" = path
    · subst first
      decide
    · by_cases second : "host.com/time" = path
      · subst second
        decide
      · simp [imports, first, second, Import.isHidden]
  obtain ⟨-, -, added, kept⟩ := addNamed_appends imports
  exact ⟨hidden, used, (added "other.com/time" "time" hidden).2.2.2 used, one, kept _ one⟩

end Marginalia.Go.Imports
