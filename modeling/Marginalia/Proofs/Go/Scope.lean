/-
Module: Marginalia.Proofs.Go.Scope
Purpose: Import lists whose names refer to one package each, and how adding a path keeps them so.
Main exports:
  Usable, Ordinary, Imports.Scoped, Imports.Scoped.which_localName, Imports.Scoped.add
-/
import Marginalia.Proofs.Go.FreshName
import Marginalia.Proofs.Text.Chars
import Mathlib.Data.List.TakeWhile
import Mathlib.Tactic.MkIffOfInductiveProp

namespace Marginalia.Go

/-! ### Names that qualify -/

/-- A name that can stand before a dot: neither empty nor `_`, without a dot and without a star at
its start, as every identifier other than `_` is. -/
@[mk_iff]
structure Usable (name : String) : Prop where
  nonempty : name ≠ ""
  notBlank : name ≠ "_"
  dotless : '.' ∉ name.toList
  starless : name.toList.head? ≠ some '*'

instance : DecidablePred Usable :=
  fun name => decidable_of_iff' _ (usable_iff name)

theorem Usable.ne_dot {name : String} (usable : Usable name) : name ≠ "." := by
  rintro rfl
  exact usable.dotless (by decide)

/-- A suggested name that is neither empty, nor `_`, nor `v` with zero or more digits after it. -/
@[mk_iff]
structure Ordinary (name : String) : Prop where
  nonempty : name ≠ ""
  notBlank : name ≠ "_"
  notVersion : ¬(name.toList.head? = some 'v' ∧ name.toList.tail.all Char.isDigit)

instance : DecidablePred Ordinary :=
  fun name => decidable_of_iff' _ (ordinary_iff name)

/-! ### The name that a path suggests -/

/-- A character of a name that a path suggests. -/
def isWordPart (c : Char) : Bool :=
  Text.isAlphanumeric c || c == '_'

theorem isWordPart_of_mem_defaultImportName {path : String} {c : Char}
    (member : c ∈ (defaultImportName path).toList) : isWordPart c := by
  unfold defaultImportName at member
  rw [String.toList_ofList] at member
  exact List.mem_takeWhile_imp member

theorem isWordPart_of_isDigit {c : Char} (digit : c.isDigit) : isWordPart c := by
  have ascii : c.toNat < 0x80 := by
    have bounds : 48 ≤ c.val ∧ c.val ≤ 57 := by simpa [Char.isDigit] using digit
    have most : c.val.toNat ≤ 57 := bounds.2
    show c.val.toNat < 0x80
    omega
  have alphanumeric : Text.isAlphanumeric c := by
    rw [Text.isAlphanumeric, if_pos ascii, Char.isAlphanum, digit, Bool.or_true]
  rw [isWordPart, alphanumeric, Bool.true_or]

/-- A numbered suggested name has only the characters of suggested names. -/
theorem isWordPart_of_mem_numbered {path : String} {n : Nat} {c : Char}
    (member : c ∈ (numbered (defaultImportName path) n).toList) : isWordPart c := by
  rw [toList_numbered, List.mem_append] at member
  rcases member with suggested | digit
  · exact isWordPart_of_mem_defaultImportName suggested
  · exact isWordPart_of_isDigit (isDigit_of_mem_decimal digit)

/-- Names without other characters than suggested names have are usable. -/
theorem usable_of_isWordPart {name : String} (nonempty : name ≠ "") (notBlank : name ≠ "_")
    (word : ∀ c ∈ name.toList, isWordPart c) : Usable name := by
  refine ⟨nonempty, notBlank, fun dot => ?_, fun star => ?_⟩
  · exact absurd (word '.' dot) (by decide)
  · exact absurd (word '*' (List.mem_of_mem_head? star)) (by decide)

/-- The element that names a package is the last one, unless that tells a major version. -/
theorem nameElement_cases (path : String) :
    nameElement path.toList = (lastElement path).toList ∨
      isMajorVersion (lastElement path).toList := by
  unfold nameElement lastElement
  rw [List.getLast?_eq_head?_reverse, String.toList_ofList]
  rcases (Text.splitOn '/' path.toList).reverse with _ | ⟨last, _ | ⟨previous, others⟩⟩
  · exact Or.inl rfl
  · exact Or.inl rfl
  · by_cases version : isMajorVersion last
    · exact Or.inr version
    · exact Or.inl (by simp [version])

/-- A text of word characters does not start with `go-`, nor does anything end it early. -/
theorem defaultImportName_of_word {path : String}
    (named : nameElement path.toList = (lastElement path).toList)
    (word : ∀ c ∈ (lastElement path).toList, isWordPart c) :
    defaultImportName path = lastElement path := by
  have bare : Text.after? ['g', 'o', '-'] (lastElement path).toList = none := by
    cases after : Text.after? ['g', 'o', '-'] (lastElement path).toList with
    | none => rfl
    | some rest =>
      have hyphen : '-' ∈ (lastElement path).toList := by
        rw [Text.after?_eq_some_iff.1 after]
        simp
      exact absurd (word '-' hyphen) (by decide)
  have whole : (lastElement path).toList.takeWhile isWordPart = (lastElement path).toList :=
    List.takeWhile_eq_self_iff.2 word
  simp only [defaultImportName, named, bare, Option.getD_none]
  exact (congrArg String.ofList whole).trans String.ofList_toList

/-- A numbered name of an ordinary suggested name is never the last path element. -/
theorem numbered_ne_lastElement {path : String} (ordinary : Ordinary (defaultImportName path))
    (n : Nat) : numbered (defaultImportName path) n ≠ lastElement path := by
  intro same
  rcases nameElement_cases path with named | version
  · have suggested : defaultImportName path = lastElement path :=
      defaultImportName_of_word named fun c member =>
        isWordPart_of_mem_numbered (same.symm ▸ member)
    exact numbered_ne_self _ n (same.trans suggested.symm)
  · rw [← same, toList_numbered] at version
    -- the suggested name is what precedes the number, so it is a `v` with digits itself
    cases letters : (defaultImportName path).toList with
    | nil => exact ordinary.nonempty (String.toList_eq_nil_iff.1 letters)
    | cons c digits =>
      rw [letters, List.cons_append] at version
      by_cases v : c = 'v'
      · subst v
        refine ordinary.notVersion ⟨by rw [letters, List.head?_cons], ?_⟩
        simp only [isMajorVersion, Bool.and_eq_true, List.all_append] at version
        rw [letters]
        exact version.2.1
      · unfold isMajorVersion at version
        split at version
        · simp_all
        · cases version

namespace Imports

/-- A fresh name for an ordinary suggested one is usable. -/
theorem usable_fresh {path : String} (ordinary : Ordinary (defaultImportName path))
    (used : List String) : Usable (fresh used (defaultImportName path)) := by
  refine usable_of_isWordPart (fresh_ne ordinary.nonempty (by simp))
    (fresh_ne ordinary.notBlank (by simp)) fun c member => ?_
  rcases fresh_cases used (defaultImportName path) with ⟨-, same⟩ | ⟨-, n, -, same, -⟩
  · exact isWordPart_of_mem_defaultImportName (same ▸ member)
  · exact isWordPart_of_mem_numbered (same ▸ member)

/-- The import that is written under a fresh name is assumed to have that name, also when no alias
is written. -/
theorem localName_written {path : String} (ordinary : Ordinary (defaultImportName path))
    (used : List String) :
    (written path (fresh used (defaultImportName path))).localName =
      fresh used (defaultImportName path) := by
  unfold written Import.localName
  by_cases last : fresh used (defaultImportName path) = lastElement path
  · rcases fresh_cases used (defaultImportName path) with ⟨-, same⟩ | ⟨-, n, -, same, -⟩
    · rw [same] at last ⊢
      simp [last]
    · exact absurd (same.symm.trans last) (numbered_ne_lastElement ordinary n)
  · simp [last]

/-! ### Scopes -/

/-- The visible imports have distinct usable names. -/
structure Scoped (imports : Imports) : Prop where
  distinct : imports.taken.Nodup
  usable : ∀ name ∈ imports.taken, Usable name

/-- In a scope the name of a visible import refers to its path. -/
theorem Scoped.which_localName {imports : Imports} (scope : Scoped imports) {i : Import}
    (member : i ∈ imports) (visible : i.isHidden = false) :
    imports.which i.localName = some i.path := by
  have usable := scope.usable _ (mem_taken_of_mem member visible)
  have shown : i ∈ imports.visible := List.mem_filter.2 ⟨member, by simp [visible]⟩
  have found : List.find? (·.localName == i.localName) imports.visible = some i := by
    cases first : List.find? (·.localName == i.localName) imports.visible with
    | none =>
      have missed := List.find?_eq_none.1 first i shown
      simp at missed
    | some j =>
      have same : j.localName = i.localName := by simpa using List.find?_some first
      rw [List.inj_on_of_nodup_map scope.distinct (List.mem_of_find?_eq_some first) shown same]
  unfold which
  simp [usable.nonempty, usable.notBlank, usable.ne_dot, found]

theorem taken_append (imports : Imports) {i : Import} (visible : i.isHidden = false) :
    taken (imports ++ [i]) = imports.taken ++ [i.localName] := by
  simp [taken, Imports.visible, visible]

/-- Adding a path to a scope keeps it a scope, and gives out the name of a visible import of the
path. -/
theorem Scoped.add {imports : Imports} (scope : Scoped imports) {path : String}
    (ordinary : ∀ i ∈ (imports.add path).2.drop imports.length, Ordinary (defaultImportName i.path)) :
    Scoped (imports.add path).2 ∧
      ∃ i ∈ (imports.add path).2, i.isHidden = false ∧ i.path = path ∧
        i.localName = (imports.add path).1 := by
  unfold Imports.add at ordinary ⊢
  rcases addNamed_cases imports path (defaultImportName path) with
    ⟨i, member, same, visible, result⟩ | ⟨-, result⟩
  · rw [result]
    refine ⟨scope, i, member, visible, same, ?_⟩
    rw [Import.localName, same]
  · rw [result] at ordinary ⊢
    have plain : Ordinary (defaultImportName path) :=
      ordinary (written path (fresh imports.taken (defaultImportName path))) (by simp)
    have usable := usable_fresh plain imports.taken
    have named := localName_written plain imports.taken
    have visible : (written path (fresh imports.taken (defaultImportName path))).isHidden = false :=
      isHidden_written usable.notBlank usable.ne_dot
    refine ⟨⟨?_, ?_⟩, _, List.mem_append_right _ (List.mem_singleton.2 rfl), visible, rfl, named⟩
    · rw [taken_append imports visible, named, List.nodup_append]
      refine ⟨scope.distinct, by simp, fun name old other new same => ?_⟩
      rw [List.mem_singleton] at new
      exact fresh_notMem _ _ (new ▸ same ▸ old)
    · intro name member
      rw [taken_append imports visible, named, List.mem_append, List.mem_singleton] at member
      rcases member with old | rfl
      · exact scope.usable name old
      · exact usable

end Imports
end Marginalia.Go
