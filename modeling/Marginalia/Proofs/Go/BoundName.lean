/-
Module: Marginalia.Proofs.Go.BoundName
Purpose: When the names that imports really bind are distinct and are the names that were given out.
Main exports:
  Imports.bound, Imports.afterCalls, Imports.answer, Imports.Sound, Imports.Faithful,
  Imports.PlainPath, Imports.sound_iff_faithful
-/
import Marginalia.Proofs.Go.FreshName

namespace Marginalia.Go.Imports

/-!
An import without an alias binds the name that its package declares, which need not be the name
that its path suggests. Names are chosen against the suggested names, and an alias is left out
when the chosen name is the last path element. So two things can go wrong. A numbered name that
happens to be the last path element is not written, and the package binds its own name instead. And
the name of an import without alias is not seen as taken when its path suggests another, as the
path of a package `v1` in a directory `v1` does.
-/

/-- The name that an import binds: its alias, or else the name that its package declares. -/
def bound (real : String → String) (i : Import) : String :=
  i.name.getD (real i.path)

/-- The list after calls that add paths to an empty one, each under the name of its package. -/
def afterCalls (real : String → String) (calls : List String) : Imports :=
  calls.foldl (fun imports path => (imports.addNamed path (real path)).2) []

/-- The name that a call for a path gives out, after other calls. -/
def answer (real : String → String) (before : List String) (path : String) : String :=
  ((afterCalls real before).addNamed path (real path)).1

/-- After every call the bound names are distinct, and the call gives out the name that the only
entry of its path binds; so two calls for one path give out the same name. -/
structure Sound (real : String → String) (calls : List String) : Prop where
  distinct : ∀ before path, before ++ [path] <+: calls →
    ((afterCalls real (before ++ [path])).map (bound real)).Nodup
  refers : ∀ before path, before ++ [path] <+: calls →
    ∃ i, (afterCalls real (before ++ [path])).filter (·.path == path) = [i] ∧
      answer real before path = bound real i
  repeats : ∀ before between path, before ++ [path] ++ between ++ [path] <+: calls →
    answer real (before ++ [path] ++ between) path = answer real before path

/-- The name that is chosen for a new path is bound by its import, and by no import without an
alias before it. -/
structure Faithful (real : String → String) (imports : Imports) (path : String) : Prop where
  written : fresh imports.taken (real path) = lastElement path →
    fresh imports.taken (real path) = real path
  unbound : ∀ i ∈ imports, i.name = none → real i.path ≠ fresh imports.taken (real path)

/-- A path whose last element is no numbered name of its package, and which suggests that name if
its last element is that name. -/
structure PlainPath (path package : String) : Prop where
  suggests : lastElement path = package → defaultImportName path = package
  unnumbered : ∀ n, 2 ≤ n → lastElement path ≠ numbered package n

/-! ### One call -/

theorem afterCalls_append (real : String → String) (before : List String) (path : String) :
    afterCalls real (before ++ [path]) =
      ((afterCalls real before).addNamed path (real path)).2 := by
  simp [afterCalls]

/-- What every call keeps: all imports are visible and no path is imported twice. -/
structure Listed (imports : Imports) : Prop where
  visible : ∀ i ∈ imports, i.isHidden = false
  paths : (imports.map Import.path).Nodup

/-- In a list of visible imports a call finds the import of its path, or there is none and a new
one is appended. -/
theorem Listed.addNamed_cases {imports : Imports} (listed : Listed imports)
    (path package : String) :
    (∃ i ∈ imports, i.path = path ∧
      imports.addNamed path package = (i.name.getD package, imports)) ∨
    (path ∉ imports.map Import.path ∧
      imports.addNamed path package =
        (fresh imports.taken package,
          imports ++ [Imports.written path (fresh imports.taken package)])) := by
  rcases Imports.addNamed_cases imports path package with
    ⟨i, member, same, -, result⟩ | ⟨hidden, result⟩
  · exact Or.inl ⟨i, member, same, result⟩
  · refine Or.inr ⟨?_, result⟩
    intro imported
    obtain ⟨i, member, same⟩ := List.mem_map.1 imported
    have shown := listed.visible i member
    rw [hidden i member same] at shown
    cases shown

theorem Listed.addNamed {imports : Imports} (listed : Listed imports) {path package : String}
    (blank : package ≠ "_") (dot : package ≠ ".") :
    Listed (imports.addNamed path package).2 := by
  rcases listed.addNamed_cases path package with ⟨i, -, -, result⟩ | ⟨absent, result⟩
  · rwa [result]
  · rw [result]
    have new : (Imports.written path (fresh imports.taken package)).isHidden = false :=
      isHidden_written (fresh_ne blank (by simp)) (fresh_ne dot (by simp))
    constructor
    · intro i member
      rcases List.mem_append.1 member with old | last
      · exact listed.visible i old
      · rw [List.mem_singleton.1 last]
        exact new
    · rw [List.map_append, List.nodup_append]
      refine ⟨listed.paths, by simp, ?_⟩
      intro p old q last same
      rw [List.map_singleton, List.mem_singleton, written_path] at last
      exact absurd (last ▸ same ▸ old) absent

/-- The only import of a path among imports with distinct paths. -/
theorem Listed.filter_path {imports : Imports} (listed : Listed imports) {i : Import}
    (member : i ∈ imports) : imports.filter (·.path == i.path) = [i] := by
  have paths := listed.paths
  clear listed
  induction imports with
  | nil => cases member
  | cons j imports ih =>
    rw [List.map_cons, List.nodup_cons] at paths
    rcases List.mem_cons.1 member with rfl | later
    · have others : imports.filter (·.path == i.path) = [] := by
        rw [List.filter_eq_nil_iff]
        intro k rest same
        exact paths.1 (List.mem_map.2 ⟨k, rest, by simpa using same⟩)
      simp [others]
    · have differ : j.path ≠ i.path := by
        intro same
        exact paths.1 (List.mem_map.2 ⟨i, later, same.symm⟩)
      simp [differ, ih later paths.2]

/-- The name that a written import binds. -/
theorem bound_written (real : String → String) (path name : String) :
    bound real (Imports.written path name) =
      if name = lastElement path then real path else name := by
  unfold bound Imports.written
  by_cases last : name = lastElement path
  · simp [last]
  · simp [last]

/-- A faithful call gives out the name that its new import binds. -/
theorem Faithful.bound_written {real : String → String} {imports : Imports} {path : String}
    (faithful : Faithful real imports path) :
    bound real (Imports.written path (fresh imports.taken (real path))) =
      fresh imports.taken (real path) := by
  rw [Imports.bound_written]
  split
  · rename_i last
    exact (faithful.written last).symm
  · rfl

/-- A faithful call gives out a name that no import before it binds. -/
theorem Faithful.fresh_ne_bound {real : String → String} {imports : Imports} {path : String}
    (faithful : Faithful real imports path) (listed : Listed imports) {i : Import}
    (member : i ∈ imports) : bound real i ≠ fresh imports.taken (real path) := by
  cases named : i.name with
  | none => simpa [bound, named] using faithful.unbound i member named
  | some name =>
    have taken := mem_taken_of_mem member (listed.visible i member)
    rw [Import.localName, named, Option.getD_some] at taken
    rw [bound, named, Option.getD_some]
    rintro rfl
    exact fresh_notMem _ _ taken

/-! ### Runs of calls -/

/-- Calls only append to the list. -/
theorem prefix_afterCalls (real : String → String) (before more : List String) :
    afterCalls real before <+: afterCalls real (before ++ more) := by
  induction more using List.reverseRecOn with
  | nil => simp
  | append_singleton more path ih =>
    rw [← List.append_assoc, afterCalls_append]
    exact ih.trans (prefix_addNamed _ path (real path))

section Runs

variable {real : String → String} (nameable : ∀ path, real path ≠ "_" ∧ real path ≠ ".")

include nameable

theorem listed_afterCalls (calls : List String) : Listed (afterCalls real calls) := by
  induction calls using List.reverseRecOn with
  | nil => exact ⟨by simp [afterCalls], by simp [afterCalls]⟩
  | append_singleton calls path ih =>
    rw [afterCalls_append]
    exact ih.addNamed (nameable path).1 (nameable path).2

/-- A call that is faithful if it adds an import gives out the name that the import of its path
binds. -/
theorem refers_of_faithful {before : List String} {path : String}
    (faithful : path ∉ (afterCalls real before).map Import.path →
      Faithful real (afterCalls real before) path) :
    ∃ i, (afterCalls real (before ++ [path])).filter (·.path == path) = [i] ∧
      answer real before path = bound real i := by
  have listed := listed_afterCalls nameable before
  have after := listed_afterCalls nameable (before ++ [path])
  rw [afterCalls_append] at after ⊢
  unfold answer
  rcases listed.addNamed_cases path (real path) with ⟨i, member, same, result⟩ | ⟨absent, result⟩
  · rw [result] at after ⊢
    subst same
    exact ⟨i, after.filter_path member, rfl⟩
  · rw [result] at after ⊢
    refine ⟨Imports.written path _, ?_, ((faithful absent).bound_written).symm⟩
    exact after.filter_path (List.mem_append_right _ (List.mem_singleton.2 rfl))

/-- If all calls that add an import are faithful, the bound names stay distinct. -/
theorem distinct_of_faithful {calls : List String}
    (faithful : ∀ before path, before ++ [path] <+: calls →
      path ∉ (afterCalls real before).map Import.path →
        Faithful real (afterCalls real before) path) :
    ((afterCalls real calls).map (bound real)).Nodup := by
  induction calls using List.reverseRecOn with
  | nil => simp [afterCalls]
  | append_singleton calls path ih =>
    have distinct := ih fun before p reached =>
      faithful before p (reached.trans (List.prefix_append _ _))
    have listed := listed_afterCalls nameable calls
    rw [afterCalls_append]
    rcases listed.addNamed_cases path (real path) with ⟨i, -, -, result⟩ | ⟨absent, result⟩
    · rwa [result]
    · have new := faithful calls path (List.prefix_refl _) absent
      rw [result, List.map_append, List.nodup_append]
      refine ⟨distinct, by simp, ?_⟩
      intro name old other last same
      obtain ⟨i, member, rfl⟩ := List.mem_map.1 old
      rw [List.map_singleton, List.mem_singleton, new.bound_written] at last
      exact new.fresh_ne_bound listed member (same.trans last)

/-- A call that adds an import and keeps what is promised is faithful. -/
theorem faithful_of_sound {calls before : List String} {path : String}
    (sound : Sound real calls) (reached : before ++ [path] <+: calls)
    (absent : path ∉ (afterCalls real before).map Import.path) :
    Faithful real (afterCalls real before) path := by
  have listed := listed_afterCalls nameable before
  have after := listed_afterCalls nameable (before ++ [path])
  have distinct := sound.distinct before path reached
  obtain ⟨i, only, refers⟩ := sound.refers before path reached
  rcases listed.addNamed_cases path (real path) with ⟨j, member, same, -⟩ | ⟨-, result⟩
  · exact absurd (List.mem_map.2 ⟨j, member, same⟩) absent
  · rw [afterCalls_append, result] at after distinct only
    rw [answer, result] at refers
    have written := after.filter_path (List.mem_append_right _ (List.mem_singleton.2 rfl))
    rw [written_path, only, List.cons.injEq] at written
    rw [written.1, bound_written] at refers
    rw [List.map_append, List.nodup_append] at distinct
    constructor
    · intro last
      rwa [if_pos last] at refers
    · intro j member unaliased clash
      refine distinct.2.2 (real j.path) (List.mem_map.2 ⟨j, member, by simp [bound, unaliased]⟩)
        _ (List.mem_map.2 ⟨_, List.mem_singleton.2 rfl, rfl⟩) ?_
      rw [bound_written, ← refers]
      exact clash

/-- Two calls for one path give out the same name if each gives out the bound one. -/
theorem repeats_of_refers {calls before between : List String} {path : String}
    (refers : ∀ before path, before ++ [path] <+: calls →
      ∃ i, (afterCalls real (before ++ [path])).filter (·.path == path) = [i] ∧
        answer real before path = bound real i)
    (reached : before ++ [path] ++ between ++ [path] <+: calls) :
    answer real (before ++ [path] ++ between) path = answer real before path := by
  have earlier : before ++ [path] <+: before ++ [path] ++ between ++ [path] := by
    rw [List.append_assoc (before ++ [path])]
    exact List.prefix_append _ _
  obtain ⟨i, only, first⟩ := refers before path (earlier.trans reached)
  obtain ⟨j, only', second⟩ := refers (before ++ [path] ++ between) path reached
  have kept : i ∈ afterCalls real (before ++ [path] ++ between ++ [path]) := by
    rw [List.append_assoc (before ++ [path])]
    refine (prefix_afterCalls real _ _).subset ?_
    exact List.mem_of_mem_filter (only ▸ List.mem_singleton.2 rfl)
  have same : i.path = path := by
    have matched := List.of_mem_filter (only ▸ List.mem_singleton.2 rfl : i ∈ List.filter _ _)
    simpa using matched
  have filtered := (listed_afterCalls nameable _).filter_path kept
  rw [same, only', List.cons.injEq] at filtered
  rw [first, second, filtered.1]

/-- If all paths are plain, every call that adds an import is faithful. -/
theorem faithful_of_plain {calls : List String}
    (plain : ∀ path ∈ calls, PlainPath path (real path)) :
    ∀ before path, before ++ [path] <+: calls → Faithful real (afterCalls real before) path := by
  -- an import without an alias was written under the name of its package, which its path suggests
  have suggested : ∀ before, before <+: calls → ∀ i ∈ afterCalls real before,
      i.name = none → defaultImportName i.path = real i.path := by
    intro before
    induction before using List.reverseRecOn with
    | nil => simp [afterCalls]
    | append_singleton before path ih =>
      intro reached i member unaliased
      have old := ih ((List.prefix_append _ _).trans reached)
      have plainPath := plain path (reached.subset (by simp))
      rw [afterCalls_append] at member
      rcases Imports.addNamed_cases (afterCalls real before) path (real path) with
        ⟨j, -, -, -, result⟩ | ⟨-, result⟩
      · rw [result] at member
        exact old i member unaliased
      · rw [result, List.mem_append, List.mem_singleton] at member
        rcases member with before | rfl
        · exact old i before unaliased
        · have last : fresh (afterCalls real before).taken (real path) = lastElement path := by
            by_contra differ
            simp [Imports.written, differ] at unaliased
          rcases fresh_cases (afterCalls real before).taken (real path) with
            ⟨-, same⟩ | ⟨-, n, least, same, -⟩
          · exact plainPath.suggests (last.symm.trans same)
          · exact absurd (last.symm.trans same) (plainPath.unnumbered n least)
  intro before path reached
  have plainPath := plain path (reached.subset (by simp))
  have listed := listed_afterCalls nameable before
  constructor
  · intro last
    rcases fresh_cases (afterCalls real before).taken (real path) with
      ⟨-, same⟩ | ⟨-, n, least, same, -⟩
    · exact same
    · exact absurd (last.symm.trans same) (plainPath.unnumbered n least)
  · intro i member unaliased clash
    have taken := mem_taken_of_mem member (listed.visible i member)
    rw [Import.localName, unaliased, Option.getD_none,
      suggested before ((List.prefix_append _ _).trans reached) i member unaliased, clash] at taken
    exact fresh_notMem _ _ taken

end Runs

/-- Calls that start from no imports keep the promise of distinct and true names exactly when every
call that adds an import is faithful; and they all are when the paths are plain. -/
theorem sound_iff_faithful (real : String → String)
    (nameable : ∀ path, real path ≠ "_" ∧ real path ≠ ".") (calls : List String) :
    (Sound real calls ↔ ∀ before path, before ++ [path] <+: calls →
      path ∉ (afterCalls real before).map Import.path →
        Faithful real (afterCalls real before) path) ∧
    ((∀ path ∈ calls, PlainPath path (real path)) → Sound real calls) := by
  have sound_of_faithful (faithful : ∀ before path, before ++ [path] <+: calls →
      path ∉ (afterCalls real before).map Import.path →
        Faithful real (afterCalls real before) path) : Sound real calls := by
    have refers : ∀ before path, before ++ [path] <+: calls → _ := fun before path reached =>
      refers_of_faithful nameable (faithful before path reached)
    refine ⟨?_, refers, fun before between path reached =>
      repeats_of_refers nameable refers reached⟩
    intro before path reached
    exact distinct_of_faithful nameable fun earlier p within =>
      faithful earlier p (within.trans reached)
  constructor
  · exact ⟨fun sound before path => faithful_of_sound nameable sound, sound_of_faithful⟩
  · intro plain
    exact sound_of_faithful fun before path reached _ =>
      faithful_of_plain nameable plain before path reached

/-- Two packages of one name get distinct names, and keep them when they are asked for again. -/
theorem sound_two_packages :
    ("time" ≠ "_" ∧ "time" ≠ ".") ∧
      Sound (fun _ => "time") ["time", "host.com/time", "time"] := by
  refine ⟨by decide, (sound_iff_faithful _ (fun _ => by decide) _).2 ?_⟩
  intro path member
  have last : lastElement path = "time" ∧ defaultImportName path = "time" := by
    revert path
    decide +kernel
  refine ⟨fun _ => last.2, fun n _ => ?_⟩
  rw [last.1]
  exact (numbered_ne_self "time" n).symm

/-- A numbered name that is the last path element is not written, and the package binds a name that
is taken. -/
theorem not_sound_numbered :
    ¬Sound (fun _ => "storage") ["example.com/storage", "example.com/storage2"] := by
  intro sound
  have distinct := sound.distinct ["example.com/storage"] "example.com/storage2"
    (List.prefix_refl _)
  revert distinct
  decide +kernel

/-- The name of a package that is called after a version is not seen as taken. -/
theorem not_sound_version : ¬Sound (fun _ => "v1") ["foo/v1", "bar/v1"] := by
  intro sound
  have distinct := sound.distinct ["foo/v1"] "bar/v1" (List.prefix_refl _)
  revert distinct
  decide +kernel

end Marginalia.Go.Imports
