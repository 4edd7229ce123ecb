/-
Module: Marginalia.Proofs.Go.FreshName
Purpose: The name that an added import gets is unused, and what adding does to the list.
Main exports:
  numbered, Imports.fresh_cases, Imports.fresh_notMem, Imports.addNamed_cases
-/
import Marginalia.Go.Import
import Mathlib.Tactic

namespace Marginalia.Go

/-! ### Numbered names -/

/-- A name with a number after it. -/
def numbered (base : String) (n : Nat) : String :=
  base ++ String.ofList (Text.decimal n)

theorem toList_numbered (base : String) (n : Nat) :
    (numbered base n).toList = base.toList ++ Text.decimal n := by
  simp [numbered]

theorem decimal_injective : Function.Injective Text.decimal := by
  intro m n same
  have value (k : Nat) : Nat.ofDigitChars 10 (Text.decimal k) 0 = k :=
    Nat.ofDigitChars_toDigits (by decide) (by decide)
  rw [← value m, same, value n]

theorem isDigit_of_mem_decimal {n : Nat} {c : Char} (member : c ∈ Text.decimal n) : c.isDigit :=
  Nat.isDigit_of_mem_toDigits (by decide) (by decide) member

theorem decimal_ne_nil (n : Nat) : Text.decimal n ≠ [] :=
  Nat.toDigits_ne_nil

theorem numbered_injective (base : String) : Function.Injective (numbered base) := by
  intro m n same
  have lists := congrArg String.toList same
  rw [toList_numbered, toList_numbered, List.append_cancel_left_eq] at lists
  exact decimal_injective lists

/-- A numbered name ends in a digit, so it is no name without digits. -/
theorem numbered_ne {base other : String} {n : Nat}
    (undigited : ∀ c ∈ other.toList, ¬c.isDigit) : numbered base n ≠ other := by
  rintro rfl
  obtain ⟨c, member⟩ := List.exists_mem_of_ne_nil _ (decimal_ne_nil n)
  refine undigited c ?_ (isDigit_of_mem_decimal member)
  rw [toList_numbered]
  exact List.mem_append_right _ member

theorem numbered_ne_self (base : String) (n : Nat) : numbered base n ≠ base := by
  intro same
  have lists := congrArg String.toList same
  rw [toList_numbered, List.append_right_eq_self] at lists
  exact decimal_ne_nil n lists

namespace Imports

/-! ### The first unused name -/

/-- The search returns a numbered name, and every name that it passed is in use. -/
theorem freshFrom_eq_numbered (used : List String) (base : String) (fuel n : Nat) :
    ∃ m, n ≤ m ∧ m ≤ n + fuel ∧ freshFrom used base fuel n = numbered base m ∧
      (∀ k, n ≤ k → k < m → numbered base k ∈ used) ∧
      (numbered base m ∈ used → m = n + fuel) := by
  have trial (fuel n : Nat) : freshFrom used base (fuel + 1) n =
      if numbered base n ∈ used then freshFrom used base fuel (n + 1) else numbered base n :=
    if_congr (by simp [numbered]) rfl rfl
  induction fuel generalizing n with
  | zero => exact ⟨n, le_rfl, le_rfl, rfl, fun k _ _ => by omega, fun _ => rfl⟩
  | succ fuel ih =>
    by_cases taken : numbered base n ∈ used
    · obtain ⟨m, least, most, found, passed, exhausted⟩ := ih (n + 1)
      refine ⟨m, by omega, by omega, ?_, ?_, fun again => ?_⟩
      · rw [trial, if_pos taken, found]
      · intro k from_n below
        rcases Nat.eq_or_lt_of_le from_n with rfl | later
        · exact taken
        · exact passed k later below
      · have := exhausted again
        omega
    · refine ⟨n, le_rfl, by omega, ?_, fun k _ _ => by omega, fun again => absurd again taken⟩
      rw [trial, if_neg taken]

/-- One trial more than there are used names is enough. -/
theorem freshFrom_notMem (used : List String) (base : String) (n : Nat) :
    freshFrom used base used.length n ∉ used := by
  obtain ⟨m, least, most, found, passed, exhausted⟩ :=
    freshFrom_eq_numbered used base used.length n
  rw [found]
  intro taken
  -- all numbers from `n` to the last trial would be in use, one more than there are names
  have last : m = n + used.length := exhausted taken
  have all : (List.range' n (used.length + 1)).map (numbered base) ⊆ used := by
    intro name member
    obtain ⟨k, range, rfl⟩ := List.mem_map.1 member
    rw [List.mem_range'_1] at range
    rcases Nat.lt_or_ge k m with below | above
    · exact passed k range.1 below
    · obtain rfl : k = m := by omega
      exact taken
  have distinct : ((List.range' n (used.length + 1)).map (numbered base)).Nodup :=
    (List.nodup_range' ..).map (numbered_injective base)
  have few := (distinct.subperm all).length_le
  simp at few

/-- A name that is not in use is taken as it is; otherwise the least number from 2 on makes it
unused. -/
theorem fresh_cases (used : List String) (base : String) :
    (base ∉ used ∧ fresh used base = base) ∨
    (base ∈ used ∧ ∃ n, 2 ≤ n ∧ fresh used base = numbered base n ∧
      ∀ k, 2 ≤ k → k < n → numbered base k ∈ used) := by
  unfold fresh
  by_cases taken : base ∈ used
  · obtain ⟨m, least, most, found, passed, -⟩ := freshFrom_eq_numbered used base used.length 2
    exact Or.inr ⟨taken, m, least, by simp [taken, found], passed⟩
  · exact Or.inl ⟨taken, by simp [taken]⟩

theorem fresh_notMem (used : List String) (base : String) : fresh used base ∉ used := by
  unfold fresh
  by_cases taken : base ∈ used
  · simpa [taken] using freshFrom_notMem used base 2
  · simp [taken]

/-- A fresh name is hidden only if the wanted name is. -/
theorem fresh_ne {used : List String} {base other : String} (differ : base ≠ other)
    (undigited : ∀ c ∈ other.toList, ¬c.isDigit) : fresh used base ≠ other := by
  rcases fresh_cases used base with ⟨-, same⟩ | ⟨-, n, -, same, -⟩
  · rwa [same]
  · rw [same]
    exact numbered_ne undigited

/-! ### Adding an import -/

/-- The import that is written for a path under a name. -/
def written (path name : String) : Import :=
  { name := if name == lastElement path then none else some name, path }

/-- Adding a path either finds a visible import of it and changes nothing, or there is none and one
with a fresh name is appended. -/
theorem addNamed_cases (imports : Imports) (path package : String) :
    (∃ i ∈ imports, i.path = path ∧ i.isHidden = false ∧
      imports.addNamed path package = (i.name.getD package, imports)) ∨
    ((∀ i ∈ imports, i.path = path → i.isHidden = true) ∧
      imports.addNamed path package =
        (fresh imports.taken package, imports ++ [written path (fresh imports.taken package)])) := by
  unfold addNamed
  cases found : List.find? (fun i => i.path == path && !i.isHidden) imports with
  | some i =>
    have matched := List.find?_some found
    simp only [Bool.and_eq_true, beq_iff_eq, Bool.not_eq_true'] at matched
    exact Or.inl ⟨i, List.mem_of_find?_eq_some found, matched.1, matched.2, rfl⟩
  | none =>
    refine Or.inr ⟨?_, rfl⟩
    intro i member same
    have unmatched := List.find?_eq_none.1 found i member
    simpa [same] using unmatched

/-- Adding a path only appends. -/
theorem prefix_addNamed (imports : Imports) (path package : String) :
    imports <+: (imports.addNamed path package).2 := by
  rcases addNamed_cases imports path package with ⟨i, -, -, -, result⟩ | ⟨-, result⟩
  · rw [result]
  · rw [result]
    exact List.prefix_append _ _

theorem written_path (path name : String) : (written path name).path = path := rfl

/-- An import that is written under a visible name is visible. -/
theorem isHidden_written {path name : String} (blank : name ≠ "_") (dot : name ≠ ".") :
    (written path name).isHidden = false := by
  unfold written Import.isHidden
  by_cases last : name = lastElement path
  · simp [last]
  · simp [last, blank, dot]

theorem mem_taken_of_mem {imports : Imports} {i : Import} (member : i ∈ imports)
    (visible : i.isHidden = false) : i.localName ∈ imports.taken :=
  List.mem_map.2 ⟨i, List.mem_filter.2 ⟨member, by simp [visible]⟩, rfl⟩

end Imports
end Marginalia.Go
