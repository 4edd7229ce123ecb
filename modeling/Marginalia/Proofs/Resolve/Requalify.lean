/-
Module: Marginalia.Proofs.Resolve.Requalify
Purpose: Requalified type names mean in the destination what they meant in the source.
Main exports:
  Denotes, bare, requalifyAll, Requalified, requalifyAll_denotes
-/
import Marginalia.Resolve.Qualify
import Marginalia.Proofs.Go.Scope

namespace Marginalia.Resolve

open Go (Import Imports Usable Ordinary Imports.Scoped defaultImportName isExported)

/-! ### What a type name denotes -/

/-- A name without a star denotes an exported type: one of the package it is written in, or, behind
a qualifier, one of the package that the imports have under that qualifier. -/
inductive Denotes (imports : Imports) (package : String) : String → String → String → Prop
  | own {name : String} (dotless : '.' ∉ name.toList) (exported : isExported name) :
    Denotes imports package name package name
  | imported {qualifier path name : String} (plain : '.' ∉ qualifier.toList)
    (known : imports.which qualifier = some path)
    (dotless : '.' ∉ name.toList) (exported : isExported name) :
    Denotes imports package (qualifier ++ "." ++ name) path name

/-- The star that a name starts with, if it does. -/
def star (name : String) : String :=
  if name.toList.head? = some '*' then "*" else ""

/-- The name without the one star that it may start with. -/
def bare (name : String) : String :=
  if name.toList.head? = some '*' then String.ofList name.toList.tail else name

theorem star_append_bare (name : String) : star name ++ bare name = name := by
  unfold star bare
  rcases letters : name.toList with _ | ⟨c, rest⟩
  · simp
  · by_cases same : c = '*'
    · subst same
      apply String.toList_injective
      simp [letters]
    · simp [same]

theorem bare_star_append {name out : String} (unstarred : out.toList.head? ≠ some '*') :
    bare (star name ++ out) = out := by
  unfold star bare
  by_cases starred : name.toList.head? = some '*'
  · apply String.toList_injective
    simp [starred]
  · simp [starred, unstarred]

theorem head?_of_isExported {name : String} (exported : isExported name) :
    name.toList.head? ≠ some '*' := by
  unfold isExported at exported
  intro starred
  rcases letters : name.toList with _ | ⟨c, rest⟩
  · simp [letters] at starred
  · rw [letters, List.head?_cons, Option.some.injEq] at starred
    rw [letters, starred] at exported
    have upper : Text.isUpper '*' := exported
    exact absurd upper (by decide)

theorem Usable.head?_qualified {qualifier : String} (usable : Usable qualifier) (name : String) :
    (qualifier ++ "." ++ name).toList.head? ≠ some '*' := by
  have starless := usable.starless
  rcases letters : qualifier.toList with _ | ⟨c, rest⟩
  · exact absurd (String.toList_eq_nil_iff.1 letters) usable.nonempty
  · rw [letters] at starless
    simpa [letters] using starless

/-! ### One name -/

/-- With nothing known of the packages, only local names are looked up. -/
theorem whichBy_none (imports : Imports) (name : String) :
    Imports.whichBy (m := Id) imports name (fun _ => return none) = imports.which name := by
  unfold Imports.whichBy
  by_cases reserved : (name == "" || name == "_" || name == ".") = true
  · rw [if_pos reserved, Imports.which, if_pos reserved]
    rfl
  · rw [if_neg reserved]
    cases found : imports.which name with
    | some path => rfl
    | none =>
      have absent (list : Imports) :
          List.findM? (m := Id) (fun _ => return (none : Option String) == some name) list =
            none := by
        induction list with
        | nil => rfl
        | cons i list ih => exact ih
      exact congrArg (Option.map Import.path) (absent (imports.visible.filter (·.name.isNone)))

/-- A name without a star, requalified with the package names that the paths suggest. -/
def requalified (name src dst : String) (srcImports dstImports : Imports) : String × Imports :=
  requalifyBare (m := Id) name src dst srcImports dstImports fun _ => return none

theorem requalify_eq (name src dst : String) (srcImports dstImports : Imports) :
    requalify name src dst srcImports dstImports =
      (star name ++ (requalified (bare name) src dst srcImports dstImports).1,
        (requalified (bare name) src dst srcImports dstImports).2) := by
  unfold requalify requalifyBy star bare
  split
  · rename_i rest letters
    rw [letters, List.head?_cons, if_pos rfl, if_pos rfl]
    rfl
  · rename_i unstarred
    have plain : name.toList.head? ≠ some '*' := by
      intro starred
      obtain ⟨rest, letters⟩ := List.head?_eq_some_iff.1 starred
      exact unstarred rest letters
    rw [if_neg plain, if_neg plain, String.empty_append]
    rfl

/-- Requalifying without a star, as a plain function. -/
theorem requalified_eq (name src dst : String) (srcImports dstImports : Imports) :
    requalified name src dst srcImports dstImports =
      match Text.cut? ['.'] name.toList with
      | none =>
        if isExported name ∧ src ≠ dst then
          ((dstImports.add src).1 ++ "." ++ name, (dstImports.add src).2)
        else (name, dstImports)
      | some (qualifier, inner) =>
        match srcImports.which (String.ofList qualifier) with
        | none => (name, dstImports)
        | some path =>
          if path = dst then (String.ofList inner, dstImports)
          else ((dstImports.add path).1 ++ "." ++ String.ofList inner, (dstImports.add path).2) := by
  unfold requalified requalifyBare
  cases Text.cut? ['.'] name.toList with
  | none => exact if_congr (by rw [Bool.and_eq_true, bne_iff_ne]) rfl rfl
  | some parts =>
    obtain ⟨qualifier, inner⟩ := parts
    dsimp only
    rw [whichBy_none]
    cases srcImports.which (String.ofList qualifier) with
    | none => rfl
    | some path => exact if_congr beq_iff_eq rfl rfl

/-- A qualified name has one qualifier. -/
theorem qualified_injective {q q' name name' : String} (plain : '.' ∉ q.toList)
    (plain' : '.' ∉ q'.toList) (same : q ++ "." ++ name = q' ++ "." ++ name') :
    q = q' ∧ name = name' := by
  have letters : q.toList ++ '.' :: name.toList = q'.toList ++ '.' :: name'.toList := by
    simpa using congrArg String.toList same
  have cut := Text.cut?_eq_some_iff.2 ⟨letters, plain'⟩
  rw [Text.cut?_eq_some_iff.2 ⟨rfl, plain⟩, Option.some.injEq, Prod.mk.injEq] at cut
  exact ⟨String.toList_injective cut.1, String.toList_injective cut.2⟩

theorem dot_mem_qualified (qualifier name : String) :
    '.' ∈ (qualifier ++ "." ++ name).toList := by
  simp

/-- What a qualified name denotes is found by its qualifier. -/
theorem Denotes.of_qualified {imports : Imports} {package qualifier inner path type : String}
    (denotes : Denotes imports package (qualifier ++ "." ++ inner) path type)
    (plain : '.' ∉ qualifier.toList) :
    imports.which qualifier = some path ∧ inner = type ∧ '.' ∉ type.toList ∧ isExported type := by
  generalize whole : qualifier ++ "." ++ inner = name at denotes
  cases denotes with
  | own dotless exported =>
    rw [← whole] at dotless
    exact absurd (dot_mem_qualified qualifier inner) dotless
  | imported plain' known dotless exported =>
    obtain ⟨rfl, rfl⟩ := qualified_injective plain plain' whole
    exact ⟨known, rfl, dotless, exported⟩

/-- What becomes of a name without a star: without a qualifier it is kept, or qualified by its
package; with one, it is kept when the qualifier is unknown, loses the qualifier when that is the
destination, and else gets the one that the destination has for the package. -/
theorem requalified_cases (name src dst : String) (srcImports dstImports : Imports) :
    ('.' ∉ name.toList ∧
      ((isExported name → src = dst) ∧
          requalified name src dst srcImports dstImports = (name, dstImports) ∨
        isExported name ∧ requalified name src dst srcImports dstImports =
          ((dstImports.add src).1 ++ "." ++ name, (dstImports.add src).2))) ∨
    ∃ qualifier inner, '.' ∉ qualifier.toList ∧ name = qualifier ++ "." ++ inner ∧
      (srcImports.which qualifier = none ∧
          requalified name src dst srcImports dstImports = (name, dstImports) ∨
        srcImports.which qualifier = some dst ∧
          requalified name src dst srcImports dstImports = (inner, dstImports) ∨
        ∃ path, srcImports.which qualifier = some path ∧
          requalified name src dst srcImports dstImports =
            ((dstImports.add path).1 ++ "." ++ inner, (dstImports.add path).2)) := by
  rw [requalified_eq]
  cases cut : Text.cut? ['.'] name.toList with
  | none =>
    refine Or.inl ⟨Text.cut?_eq_none_iff.1 cut, ?_⟩
    by_cases moves : isExported name ∧ src ≠ dst
    · exact Or.inr ⟨moves.1, if_pos moves⟩
    · exact Or.inl ⟨fun exported => by_contra fun differ => moves ⟨exported, differ⟩, if_neg moves⟩
  | some parts =>
    obtain ⟨qualifier, inner⟩ := parts
    obtain ⟨whole, plain⟩ := Text.cut?_eq_some_iff.1 cut
    refine Or.inr ⟨String.ofList qualifier, String.ofList inner, by simpa using plain, ?_, ?_⟩
    · apply String.toList_injective
      simp [whole]
    · dsimp only
      cases known : srcImports.which (String.ofList qualifier) with
      | none => exact Or.inl ⟨rfl, rfl⟩
      | some path =>
        by_cases home : path = dst
        · exact Or.inr (Or.inl ⟨congrArg some home, if_pos home⟩)
        · exact Or.inr (Or.inr ⟨path, rfl, if_neg home⟩)

theorem mem_taken_of_which {imports : Imports} {name path : String}
    (known : imports.which name = some path) : name ∈ imports.taken := by
  unfold Imports.which at known
  split at known
  · cases known
  · obtain ⟨i, found, -⟩ := Option.map_eq_some_iff.1 known
    have same : i.localName = name := by simpa using List.find?_some found
    exact List.mem_map.2 ⟨i, List.mem_of_find?_eq_some found, same⟩

/-- In a scope, a name that denotes something does not start with a star. -/
theorem Denotes.unstarred {imports : Imports} {package name path type : String}
    (scope : Imports.Scoped imports) (denotes : Denotes imports package name path type) :
    name.toList.head? ≠ some '*' := by
  cases denotes with
  | own dotless exported => exact head?_of_isExported exported
  | imported plain known dotless exported =>
    exact Usable.head?_qualified (scope.usable _ (mem_taken_of_which known)) type

/-- A type behind the name that adding its package gives out denotes it, also in a scope that has
grown since. -/
theorem denotes_add {imports final : Imports} {dst path type : String}
    (scope : Imports.Scoped final) (grown : (imports.add path).2 <+: final)
    (added : ∃ i ∈ (imports.add path).2, i.isHidden = false ∧ i.path = path ∧
      i.localName = (imports.add path).1)
    (dotless : '.' ∉ type.toList) (exported : isExported type) :
    Denotes final dst ((imports.add path).1 ++ "." ++ type) path type := by
  obtain ⟨i, member, visible, same, named⟩ := added
  have kept : i ∈ final := grown.subset member
  have known := scope.which_localName kept visible
  have usable := scope.usable _ (Imports.mem_taken_of_mem kept visible)
  rw [named] at known usable
  rw [same] at known
  exact Denotes.imported usable.dotless known dotless exported

/-- The imports only grow at their end. -/
theorem prefix_requalified (name src dst : String) (srcImports dstImports : Imports) :
    dstImports <+: (requalified name src dst srcImports dstImports).2 := by
  rcases requalified_cases name src dst srcImports dstImports with
    ⟨-, ⟨-, result⟩ | ⟨-, result⟩⟩ |
    ⟨qualifier, inner, -, -, ⟨-, result⟩ | ⟨-, result⟩ | ⟨path, -, result⟩⟩
  · rw [result]
  · rw [result]
    exact Imports.prefix_addNamed _ _ _
  · rw [result]
  · rw [result]
  · rw [result]
    exact Imports.prefix_addNamed _ _ _

/-- One name without a star: the imports stay a scope, and the new name denotes in
every later scope what the old one did. -/
theorem requalified_denotes {name src dst : String} {srcImports dstImports : Imports}
    (scope : Imports.Scoped dstImports)
    (ordinary : ∀ i ∈ (requalified name src dst srcImports dstImports).2.drop dstImports.length,
      Ordinary (defaultImportName i.path)) :
    Imports.Scoped (requalified name src dst srcImports dstImports).2 ∧
    ∀ final, (requalified name src dst srcImports dstImports).2 <+: final →
      Imports.Scoped final → ∀ path type, Denotes srcImports src name path type →
        Denotes final dst (requalified name src dst srcImports dstImports).1 path type := by
  rcases requalified_cases name src dst srcImports dstImports with
    ⟨unqualified, ⟨home, result⟩ | ⟨exported, result⟩⟩ |
    ⟨qualifier, inner, plain, rfl, ⟨unknown, result⟩ | ⟨home, result⟩ | ⟨package, known, result⟩⟩
  · rw [result]
    refine ⟨scope, fun final _ _ path type denotes => ?_⟩
    cases denotes with
    | own dotless exported => exact home exported ▸ Denotes.own dotless exported
    | imported => exact absurd (dot_mem_qualified _ _) unqualified
  · rw [result] at ordinary ⊢
    obtain ⟨kept, added⟩ := scope.add ordinary
    refine ⟨kept, fun final later finalScope path type denotes => ?_⟩
    cases denotes with
    | own dotless exported => exact denotes_add finalScope later added dotless exported
    | imported => exact absurd (dot_mem_qualified _ _) unqualified
  · rw [result]
    refine ⟨scope, fun final _ _ path type denotes => ?_⟩
    obtain ⟨known, -, -⟩ := denotes.of_qualified plain
    rw [unknown] at known
    cases known
  · rw [result]
    refine ⟨scope, fun final _ _ path type denotes => ?_⟩
    obtain ⟨known, rfl, dotless, exported⟩ := denotes.of_qualified plain
    rw [home, Option.some.injEq] at known
    exact known ▸ Denotes.own dotless exported
  · rw [result] at ordinary ⊢
    obtain ⟨kept, added⟩ := scope.add ordinary
    refine ⟨kept, fun final later finalScope path type denotes => ?_⟩
    obtain ⟨known', rfl, dotless, exported⟩ := denotes.of_qualified plain
    rw [known, Option.some.injEq] at known'
    subst known'
    exact denotes_add finalScope later added dotless exported

/-! ### Names in turn -/

/-- Requalify names one after another; each leaves its imports to the next. -/
def requalifyAll (src dst : String) (srcImports : Imports) :
    List String → Imports → List String × Imports
  | [], dstImports => ([], dstImports)
  | name :: names, dstImports =>
    let (out, grown) := requalify name src dst srcImports dstImports
    let (outs, final) := requalifyAll src dst srcImports names grown
    (out :: outs, final)

/-- What a name and its requalified form have in common. -/
structure Requalified (src dst : String) (srcImports final : Imports) (name out : String) :
    Prop where
  denotes : ∀ path type, Denotes srcImports src (bare name) path type →
    Denotes final dst (bare out) path type
  starred : star name = "*" → star out = "*"
  unexported : '.' ∉ name.toList → ¬isExported (bare name) → out = name
  unknown : ∀ qualifier inner, '.' ∉ qualifier.toList → bare name = qualifier ++ "." ++ inner →
    srcImports.which qualifier = none → out = name

theorem star_star_append (name out : String) (starred : star name = "*") :
    star (star name ++ out) = "*" := by
  rw [starred, star, if_pos (by simp)]

theorem prefix_requalify (name src dst : String) (srcImports dstImports : Imports) :
    dstImports <+: (requalify name src dst srcImports dstImports).2 := by
  rw [requalify_eq]
  exact prefix_requalified (bare name) src dst srcImports dstImports

theorem scoped_requalify {name src dst : String} {srcImports dstImports : Imports}
    (scope : Imports.Scoped dstImports)
    (ordinary : ∀ i ∈ (requalify name src dst srcImports dstImports).2.drop dstImports.length,
      Ordinary (defaultImportName i.path)) :
    Imports.Scoped (requalify name src dst srcImports dstImports).2 := by
  rw [requalify_eq] at ordinary ⊢
  exact (requalified_denotes scope ordinary).1

/-- One name of a run: its requalified form holds in the scope that the run ends with. -/
theorem requalify_denotes {name src dst : String} {srcImports dstImports final : Imports}
    (scope : Imports.Scoped dstImports)
    (ordinary : ∀ i ∈ (requalify name src dst srcImports dstImports).2.drop dstImports.length,
      Ordinary (defaultImportName i.path))
    (later : (requalify name src dst srcImports dstImports).2 <+: final)
    (finalScope : Imports.Scoped final) :
    Requalified src dst srcImports final name
      (requalify name src dst srcImports dstImports).1 := by
  rw [requalify_eq] at ordinary later ⊢
  have same := (requalified_denotes scope ordinary).2 final later finalScope
  refine ⟨fun path type denotes => ?_, star_star_append name _, fun dotless internal => ?_,
    fun qualifier inner plain whole unknown => ?_⟩
  · rw [bare_star_append ((same path type denotes).unstarred finalScope)]
    exact same path type denotes
  · have unqualified : '.' ∉ (bare name).toList := by
      rw [← star_append_bare name] at dotless
      intro dot
      exact dotless (by simp [dot])
    rcases requalified_cases (bare name) src dst srcImports dstImports with
      ⟨-, ⟨-, result⟩ | ⟨exported, -⟩⟩ | ⟨qualifier, inner, -, whole, -⟩
    · rw [result]
      exact star_append_bare name
    · exact absurd exported internal
    · rw [whole] at unqualified
      exact absurd (dot_mem_qualified qualifier inner) unqualified
  · rcases requalified_cases (bare name) src dst srcImports dstImports with
      ⟨unqualified, -⟩ | ⟨qualifier', inner', plain', whole', cases⟩
    · rw [whole] at unqualified
      exact absurd (dot_mem_qualified qualifier inner) unqualified
    · obtain ⟨rfl, rfl⟩ := qualified_injective plain plain' (whole.symm.trans whole')
      rcases cases with ⟨-, result⟩ | ⟨known, -⟩ | ⟨path, known, -⟩
      · rw [result]
        exact star_append_bare name
      · rw [unknown] at known
        cases known
      · rw [unknown] at known
        cases known

theorem requalifyAll_cons (name src dst : String) (srcImports dstImports : Imports)
    (names : List String) :
    requalifyAll src dst srcImports (name :: names) dstImports =
      ((requalify name src dst srcImports dstImports).1 ::
          (requalifyAll src dst srcImports names
            (requalify name src dst srcImports dstImports).2).1,
        (requalifyAll src dst srcImports names
          (requalify name src dst srcImports dstImports).2).2) := rfl

/-- A run only appends imports. -/
theorem prefix_requalifyAll (src dst : String) (srcImports dstImports : Imports)
    (names : List String) :
    dstImports <+: (requalifyAll src dst srcImports names dstImports).2 := by
  induction names generalizing dstImports with
  | nil => exact List.prefix_refl _
  | cons name names ih =>
    rw [requalifyAll_cons]
    exact (prefix_requalify name src dst srcImports dstImports).trans (ih _)

/-- A run that starts in a scope ends in one, and every name holds there. -/
theorem scoped_requalifyAll (src dst : String) (srcImports dstImports : Imports)
    (names : List String) (scope : Imports.Scoped dstImports)
    (ordinary : ∀ i ∈ (requalifyAll src dst srcImports names dstImports).2.drop dstImports.length,
      Ordinary (defaultImportName i.path)) :
    Imports.Scoped (requalifyAll src dst srcImports names dstImports).2 ∧
      List.Forall₂
        (Requalified src dst srcImports (requalifyAll src dst srcImports names dstImports).2)
        names (requalifyAll src dst srcImports names dstImports).1 := by
  induction names generalizing dstImports with
  | nil => exact ⟨scope, List.Forall₂.nil⟩
  | cons name names ih =>
    rw [requalifyAll_cons] at ordinary ⊢
    have appended := prefix_requalify name src dst srcImports dstImports
    have later := prefix_requalifyAll src dst srcImports
      (requalify name src dst srcImports dstImports).2 names
    -- what the first name and the names after it append is part of what the run appends
    have first : ∀ i ∈ (requalify name src dst srcImports dstImports).2.drop dstImports.length,
        Ordinary (defaultImportName i.path) :=
      fun i member => ordinary i ((later.drop _).subset member)
    obtain ⟨finalScope, others⟩ := ih _ (scoped_requalify scope first)
      fun i member => ordinary i (List.drop_subset_drop_left _ appended.length_le member)
    exact ⟨finalScope,
      List.Forall₂.cons (requalify_denotes scope first later finalScope) others⟩

/-- Requalifying names in turn keeps what they denote: with destination imports of distinct usable
names, and no import added whose path suggests a name that is not ordinary, every name denotes at
the end of the run, through the final imports, what it denoted in its source; stars are kept,
unexported names and names with an unknown qualifier are unchanged, and imports are only appended. -/
theorem requalifyAll_denotes (src dst : String) (srcImports dstImports : Imports)
    (names : List String) (distinct : dstImports.taken.Nodup)
    (usable : ∀ name ∈ dstImports.taken, Usable name)
    (ordinary : ∀ i ∈ (requalifyAll src dst srcImports names dstImports).2.drop dstImports.length,
      Ordinary (defaultImportName i.path)) :
    List.Forall₂
        (Requalified src dst srcImports (requalifyAll src dst srcImports names dstImports).2)
        names (requalifyAll src dst srcImports names dstImports).1 ∧
      dstImports <+: (requalifyAll src dst srcImports names dstImports).2 :=
  ⟨(scoped_requalifyAll src dst srcImports dstImports names ⟨distinct, usable⟩ ordinary).2,
    prefix_requalifyAll src dst srcImports dstImports names⟩

/-- A run in which a package is qualified by a numbered name, as another has its name. -/
theorem requalifyAll_denotes_numbered :
    let clocks : Imports := [⟨none, "host.com/view"⟩, ⟨some "clock", "host.com/time"⟩]
    let final : Imports := [⟨none, "time"⟩, ⟨some "_", "embed"⟩, ⟨some "time2", "host.com/time"⟩,
      ⟨none, "host.com/model"⟩]
    let names := ["*clock.Span", "User", "view.Page", "clock.Zone", "id"]
    let outs := ["*time2.Span", "model.User", "Page", "time2.Zone", "id"]
    List.Forall₂ (Requalified "host.com/model" "host.com/view" clocks final) names outs ∧
      [⟨none, "time"⟩, ⟨some "_", "embed"⟩] <+: final :=
  requalifyAll_denotes "host.com/model" "host.com/view"
    [⟨none, "host.com/view"⟩, ⟨some "clock", "host.com/time"⟩]
    [⟨none, "time"⟩, ⟨some "_", "embed"⟩] ["*clock.Span", "User", "view.Page", "clock.Zone", "id"]
    (by decide +kernel) (by decide +kernel) (by decide +kernel)

end Marginalia.Resolve
