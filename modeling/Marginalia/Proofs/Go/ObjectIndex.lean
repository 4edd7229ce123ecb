/-
Module: Marginalia.Proofs.Go.ObjectIndex
Purpose: The index of a source file holds places of declarations, of each name the last one.
Main exports:
  Declares, ObjectRef.Before, LastDeclares, Declares.object?, mem_refs_iff, refs_sorted,
  get?_index_iff, SourceUnit.lookup_eq_last
-/
import Marginalia.Go.Unit
import Marginalia.Proofs.Dict

namespace Marginalia.Go

/-! ### Declarations of a name -/

/-- A place among declarations declares an object under a name: a function without receiver that is
called so, a type that is called so, or values that list the name, unless it is the blank one. -/
inductive Declares (decls : List Decl) (name : String) : ObjectRef → Object → Prop
  | func {i : Nat} {f : FuncDecl} (decl : decls[i]? = some (.func f)) (free : f.receiver = none)
      (named : f.name = name) : Declares decls name (.func i) (.func f)
  | type {i j : Nat} {g : GenDecl} {s : TypeSpec} (decl : decls[i]? = some (.gen g))
      (spec : g.specs[j]? = some (.type s)) (named : s.name = name) :
      Declares decls name (.spec i j) (.type s)
  | value {i j : Nat} {g : GenDecl} {s : ValueSpec} (decl : decls[i]? = some (.gen g))
      (spec : g.specs[j]? = some (.value s)) (listed : name ∈ s.names) (solid : name ≠ "_") :
      Declares decls name (.spec i j) (.value s)

/-- The number of the declaration, and of the spec in it. -/
def ObjectRef.place : ObjectRef → Nat × Nat
  | .func i => (i, 0)
  | .spec i j => (i, j)

/-- A place comes before another in the source. -/
def ObjectRef.Before (a b : ObjectRef) : Prop :=
  a.place.1 < b.place.1 ∨ a.place.1 = b.place.1 ∧ a.place.2 < b.place.2

/-- A place declares an object under a name, and all other places that declare something under it
come before. -/
def LastDeclares (decls : List Decl) (name : String) (ref : ObjectRef) (object : Object) : Prop :=
  Declares decls name ref object ∧
    ∀ other object', Declares decls name other object' → other ≠ ref → other.Before ref

theorem ObjectRef.Before.asymm {a b : ObjectRef} (before : a.Before b) : ¬b.Before a := by
  unfold ObjectRef.Before at *
  omega

/-- A place that declares an object lies within the declarations and is of the kind of the object,
so the object is found there. -/
theorem Declares.object? {decls : List Decl} {name : String} {ref : ObjectRef} {object : Object}
    (declares : Declares decls name ref object) : ref.object? decls = some object := by
  cases declares with
  | func decl free named => simp [ObjectRef.object?, decl]
  | type decl spec named => simp [ObjectRef.object?, decl, spec, Spec.object]
  | value decl spec listed solid => simp [ObjectRef.object?, decl, spec, Spec.object]

/-- There is one last place of a name. -/
theorem LastDeclares.unique {decls : List Decl} {name : String} {ref ref' : ObjectRef}
    {object object' : Object} (first : LastDeclares decls name ref object)
    (second : LastDeclares decls name ref' object') : ref = ref' := by
  by_contra differ
  have before : ref.Before ref' := second.2 ref object first.1 differ
  exact before.asymm (first.2 ref' object' second.1 (Ne.symm differ))

/-! ### The entries of the index -/

/-- All names of declarations with their places, in the order of the source. -/
def refs (decls : List Decl) : List (String × ObjectRef) :=
  decls.zipIdx.flatMap fun (decl, i) => decl.refs i

/-- The entries are the declarations: neither methods nor blank names have one. -/
theorem mem_refs_iff {decls : List Decl} {name : String} {ref : ObjectRef} :
    (name, ref) ∈ refs decls ↔ ∃ object, Declares decls name ref object := by
  constructor
  · intro member
    obtain ⟨⟨decl, i⟩, numbered, inside⟩ := List.mem_flatMap.1 member
    have at_i : decls[i]? = some decl := List.mk_mem_zipIdx_iff_getElem?.1 numbered
    cases decl with
    | func f =>
      simp only [Decl.refs, Option.isNone_iff_eq_none, List.mem_ite_nil_right,
        List.mem_singleton, Prod.mk.injEq] at inside
      obtain ⟨free, named, rfl⟩ := inside
      exact ⟨.func f, .func at_i free named.symm⟩
    | gen g =>
      obtain ⟨⟨spec, j⟩, listed, inside⟩ := List.mem_flatMap.1 inside
      have at_j : g.specs[j]? = some spec := List.mk_mem_zipIdx_iff_getElem?.1 listed
      obtain ⟨n, named, same⟩ := List.mem_map.1 inside
      obtain ⟨rfl, rfl⟩ := Prod.mk.inj same
      cases spec with
      | type s => exact ⟨.type s, .type at_i at_j (List.mem_singleton.1 named).symm⟩
      | value s =>
        obtain ⟨member, solid⟩ := List.mem_filter.1 named
        exact ⟨.value s, .value at_i at_j member (by simpa using solid)⟩
  · rintro ⟨object, declares⟩
    -- the name stands among those of the spec, and the spec among those of its declaration
    have of_spec {i j : Nat} {g : GenDecl} {spec : Spec} (decl : decls[i]? = some (.gen g))
        (at_j : g.specs[j]? = some spec) (named : name ∈ spec.names) :
        (name, .spec i j) ∈ refs decls :=
      List.mem_flatMap.2 ⟨(.gen g, i), List.mk_mem_zipIdx_iff_getElem?.2 decl,
        List.mem_flatMap.2 ⟨(spec, j), List.mk_mem_zipIdx_iff_getElem?.2 at_j,
          List.mem_map.2 ⟨name, named, rfl⟩⟩⟩
    cases declares with
    | func decl free named =>
      refine List.mem_flatMap.2 ⟨_, List.mk_mem_zipIdx_iff_getElem?.2 decl, ?_⟩
      simp [Decl.refs, free, named]
    | type decl spec named => exact of_spec decl spec (by simp [Spec.names, named])
    | value decl spec listed solid => exact of_spec decl spec (by simp [Spec.names, listed, solid])

theorem pairwise_zipIdx {β : Type} (xs : List β) : xs.zipIdx.Pairwise fun a b => a.2 < b.2 := by
  rw [← List.pairwise_map, List.zipIdx_map_snd]
  exact List.pairwise_lt_range'

/-- The place of an entry is in the declaration that it comes from. -/
theorem place_of_mem_refs {decl : Decl} {i : Nat} {entry : String × ObjectRef}
    (member : entry ∈ decl.refs i) : entry.2.place.1 = i := by
  cases decl with
  | func f =>
    simp only [Decl.refs, List.mem_ite_nil_right, List.mem_singleton] at member
    rw [member.2]
    rfl
  | gen g =>
    obtain ⟨⟨spec, j⟩, -, inside⟩ := List.mem_flatMap.1 member
    obtain ⟨n, -, rfl⟩ := List.mem_map.1 inside
    rfl

/-- The entries of a declaration are in the order of the source; the names of one spec share their
place. -/
theorem decl_refs_sorted (decl : Decl) (i : Nat) :
    (decl.refs i).Pairwise fun a b => a.2 = b.2 ∨ a.2.Before b.2 := by
  cases decl with
  | func f =>
    rw [Decl.refs]
    split <;> simp
  | gen g =>
    unfold Decl.refs
    rw [List.pairwise_flatMap]
    constructor
    · rintro ⟨spec, j⟩ -
      exact List.pairwise_map.2 (List.pairwise_of_forall fun _ _ => Or.inl rfl)
    · refine (pairwise_zipIdx g.specs).imp ?_
      rintro ⟨spec, j⟩ ⟨spec', j'⟩ less a first b second
      obtain ⟨n, -, rfl⟩ := List.mem_map.1 first
      obtain ⟨n', -, rfl⟩ := List.mem_map.1 second
      exact Or.inr (Or.inr ⟨rfl, less⟩)

/-- The entries are in the order of the source. -/
theorem refs_sorted (decls : List Decl) :
    (refs decls).Pairwise fun a b => a.2 = b.2 ∨ a.2.Before b.2 := by
  unfold refs
  rw [List.pairwise_flatMap]
  constructor
  · rintro ⟨decl, i⟩ -
    exact decl_refs_sorted decl i
  · refine (pairwise_zipIdx decls).imp ?_
    rintro ⟨decl, i⟩ ⟨decl', i'⟩ less a first b second
    refine Or.inr (Or.inl ?_)
    rwa [place_of_mem_refs first, place_of_mem_refs second]

/-! ### What the index holds -/

theorem index_eq_ofList (decls : List Decl) :
    ObjectRef.index decls = Dict.ofList (refs decls) := rfl

/-- The index lacks the names under which nothing is declared. -/
theorem get?_index_eq_none_iff {decls : List Decl} {name : String} :
    (ObjectRef.index decls).get? name = none ↔
      ∀ ref object, ¬Declares decls name ref object := by
  rw [index_eq_ofList, Dict.get?_ofList, Option.map_eq_none_iff, List.find?_eq_none]
  constructor
  · intro absent ref object declares
    have member := List.mem_reverse.2 (mem_refs_iff.2 ⟨object, declares⟩)
    simpa using absent _ member
  · rintro undeclared ⟨n, ref⟩ member named
    obtain rfl : n = name := by simpa using named
    obtain ⟨object, declares⟩ := mem_refs_iff.1 (List.mem_reverse.1 member)
    exact undeclared ref object declares

/-- A place that the index holds is the last that declares its name. -/
theorem exists_lastDeclares {decls : List Decl} {name : String} {ref : ObjectRef}
    (held : (ObjectRef.index decls).get? name = some ref) :
    ∃ object, LastDeclares decls name ref object := by
  rw [index_eq_ofList, Dict.get?_ofList, Option.map_eq_some_iff] at held
  obtain ⟨⟨n, ref⟩, found, rfl⟩ := held
  obtain ⟨named, later, earlier, split, passed⟩ := List.find?_eq_some_iff_append.1 found
  obtain rfl : n = name := by simpa using named
  have member : (n, ref) ∈ refs decls := by
    rw [← List.mem_reverse, split]
    simp
  obtain ⟨object, declares⟩ := mem_refs_iff.1 member
  refine ⟨object, declares, ?_⟩
  intro other object' declares' differ
  -- an entry of the same name is not among those that the search passed
  have among : (n, other) ∈ earlier := by
    have listed := List.mem_reverse.2 (mem_refs_iff.2 ⟨object', declares'⟩)
    rw [split, List.mem_append, List.mem_cons] at listed
    rcases listed with skipped | same | rest
    · have unnamed := passed _ skipped
      simp at unnamed
    · exact absurd (Prod.mk.inj same).2 differ
    · exact rest
  have sorted := List.pairwise_reverse.2 (refs_sorted decls)
  rw [split, List.pairwise_append, List.pairwise_cons] at sorted
  rcases sorted.2.1.1 _ among with same | before
  · exact absurd same differ
  · exact before

/-- The index holds the last place that declares a name. -/
theorem get?_index_iff {decls : List Decl} {name : String} {ref : ObjectRef} :
    (ObjectRef.index decls).get? name = some ref ↔
      ∃ object, LastDeclares decls name ref object := by
  refine ⟨exists_lastDeclares, ?_⟩
  rintro ⟨object, last⟩
  cases held : (ObjectRef.index decls).get? name with
  | some ref' =>
    obtain ⟨object', last'⟩ := exists_lastDeclares held
    rw [last.unique last']
  | none => exact absurd last.1 (get?_index_eq_none_iff.1 held ref object)

/-- The index of a source file is consistent. Every place that it holds declares an object under its
name, and that is what a look-up gives; so no look-up falls on a place that is beyond the
declarations or of the other kind. A name has an object exactly if something is declared under it,
and the object is the last one. -/
theorem SourceUnit.lookup_eq_last (unit : SourceUnit) (name : String) :
    (∀ ref, unit.objects.get? name = some ref →
      ∃ object, Declares unit.decls name ref object ∧ unit.lookup name = some object) ∧
    ((unit.lookup name).isSome ↔ ∃ ref object, Declares unit.decls name ref object) ∧
    ∀ object, unit.lookup name = some object ↔
      ∃ ref, LastDeclares unit.decls name ref object := by
  have found {ref : ObjectRef} {object : Object} (last : LastDeclares unit.decls name ref object) :
      unit.lookup name = some object := by
    rw [SourceUnit.lookup, unit.indexed, get?_index_iff.2 ⟨object, last⟩, Option.bind_some]
    exact last.1.object?
  have resolved (ref : ObjectRef) (held : unit.objects.get? name = some ref) :
      ∃ object, LastDeclares unit.decls name ref object := by
    rw [unit.indexed] at held
    exact get?_index_iff.1 held
  refine ⟨?_, ⟨?_, ?_⟩, fun object => ⟨?_, ?_⟩⟩
  · intro ref held
    obtain ⟨object, last⟩ := resolved ref held
    exact ⟨object, last.1, found last⟩
  · intro named
    obtain ⟨object, looked⟩ := Option.isSome_iff_exists.1 named
    obtain ⟨ref, held, -⟩ := Option.bind_eq_some_iff.1 looked
    obtain ⟨object', last⟩ := resolved ref held
    exact ⟨ref, object', last.1⟩
  · rintro ⟨ref, object, declares⟩
    cases held : unit.objects.get? name with
    | some ref' =>
      obtain ⟨object', last⟩ := resolved ref' held
      rw [found last, Option.isSome_some]
    | none =>
      rw [unit.indexed] at held
      exact absurd declares (get?_index_eq_none_iff.1 held ref object)
  · intro looked
    obtain ⟨ref, held, -⟩ := Option.bind_eq_some_iff.1 looked
    obtain ⟨object', last⟩ := resolved ref held
    rw [found last] at looked
    obtain rfl := Option.some.inj looked
    exact ⟨ref, last⟩
  · rintro ⟨ref, last⟩
    exact found last

/-- Of a value and a type that share a name the later one is found, also if a method of that name
follows; nothing is found under the blank name. -/
theorem SourceUnit.lookup_eq_last_shadowed :
    let type : TypeSpec := { (default : TypeSpec) with name := "b" }
    let decls : List Decl :=
      [.gen { (default : GenDecl) with
          specs := [.value { (default : ValueSpec) with names := ["_", "b"] }, .type type] },
        .func { (default : FuncDecl) with name := "b", receiver := some "T" }]
    let unit : SourceUnit :=
      { (default : SourceUnit) with decls := decls, objects := ObjectRef.index decls, indexed := rfl }
    unit.objects.get? "b" = some (.spec 0 1) ∧
      (∃ object, Declares decls "b" (.spec 0 1) object ∧ unit.lookup "b" = some object) ∧
      (∃ ref, LastDeclares decls "b" ref (.type type)) ∧
      ¬∃ ref object, Declares decls "_" ref object := by
  intro type decls unit
  have held : unit.objects.get? "b" = some (.spec 0 1) := by decide
  have found : unit.lookup "b" = some (.type type) := by
    rw [lookup, held]
    rfl
  have blank : ¬(unit.lookup "_").isSome := by decide
  refine ⟨held, (lookup_eq_last unit "b").1 _ held, ((lookup_eq_last unit "b").2.2 _).1 found, ?_⟩
  rwa [← (lookup_eq_last unit "_").2.1]

end Marginalia.Go
