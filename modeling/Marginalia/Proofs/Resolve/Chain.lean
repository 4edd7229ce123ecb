/-
Module: Marginalia.Proofs.Resolve.Chain
Purpose: The chain of references that a type name starts, and that looking up a type follows it to
  its end if that comes soon enough.
Main exports:
  Resolve.Declares, Resolve.Refers, Resolve.Ends, Resolve.Chain, Resolve.lookup_eq_some_iff,
  Resolve.lookupTypeSpec_follows
-/
import Marginalia.Proofs.Resolve.History

namespace Marginalia

/-! ### Files in the order of their names -/

namespace FileTree

theorem lt_of_compare_append {place : List String} {a b : String}
    (less : compare (place ++ [a]) (place ++ [b]) = .lt) : a < b := by
  rw [List.compare_eq_compareLex] at less
  induction place with
  | nil =>
    rw [List.nil_append, List.nil_append, List.compareLex_cons_cons, List.compareLex_nil_nil,
      Ordering.then_eq] at less
    exact compareOfLessAndEq_eq_lt.1 less
  | cons name place ih =>
    have same : compare name name = .eq := Std.ReflCmp.compare_self
    rw [List.cons_append, List.cons_append, List.compareLex_cons_cons, same,
      Ordering.eq_then] at less
    exact ih less

/-- What stands at a place is listed in the order of the names. -/
theorem childrenOf_sorted (t : FileTree) (place : List String) :
    (t.childrenOf place).Pairwise fun a b => a.1 < b.1 := by
  rw [childrenOf, List.pairwise_filterMap]
  refine t.entries.sorted.imp ?_
  rintro ⟨key, entry⟩ ⟨key', entry'⟩ less child picked child' picked'
  dsimp only at less picked picked'
  split at picked
  · rename_i name below
    split at picked'
    · rename_i name' below'
      rw [Resolve.dropComponents_eq_some_iff] at below below'
      rw [below, below'] at less
      rw [← Option.some.inj picked, ← Option.some.inj picked']
      exact lt_of_compare_append less
    · cases picked'
  · cases picked

end FileTree

open Query

namespace Resolve

open Go (SourceUnit TypeExpr TypeKind TypeSpec)

/-- The package files of a directory are listed in the order of their names. -/
theorem packageNames_sorted (files : FileTree) (dir : Path) :
    (packageNames files dir).Pairwise (· < ·) := by
  have named {child : String × Entry} {name : String} (picked : packageName? child = some name) :
      child.1 = name := by
    obtain ⟨own, entry⟩ := child
    cases entry with
    | dir => cases picked
    | file content =>
      rw [packageName?, Option.ite_none_right_eq_some] at picked
      exact Option.some.inj picked.2
  unfold packageNames
  split
  · exact .nil
  · rename_i entries listed
    obtain ⟨place, -, -, rfl⟩ := FileTree.children_eq_ok_iff.1 listed
    rw [List.pairwise_filterMap]
    refine (files.childrenOf_sorted place).imp ?_
    intro child child' less name picked name' picked'
    rwa [named picked, named picked'] at less

/-- In a sorted list the first element with an answer is the least one. -/
theorem findSome?_eq_some_iff_of_sorted {β : Type} {f : String → Option β} {names : List String}
    (sorted : names.Pairwise (· < ·)) {b : β} :
    names.findSome? f = some b ↔
      ∃ name ∈ names, f name = some b ∧ ∀ earlier ∈ names, earlier < name → f earlier = none := by
  rw [List.findSome?_eq_some_iff]
  constructor
  · rintro ⟨front, name, back, rfl, answer, unanswered⟩
    refine ⟨name, by simp, answer, fun earlier member less => ?_⟩
    obtain ⟨later, -⟩ := List.pairwise_cons.1 (List.pairwise_append.1 sorted).2.1
    rcases List.mem_append.1 member with ahead | behind
    · exact unanswered earlier ahead
    · rcases List.mem_cons.1 behind with rfl | behind
      · exact absurd less (String.lt_irrefl earlier)
      · exact absurd less (String.lt_asymm (later earlier behind))
  · rintro ⟨name, member, answer, unanswered⟩
    obtain ⟨front, back, rfl⟩ := List.append_of_mem member
    refine ⟨front, name, back, rfl, answer, fun earlier ahead => ?_⟩
    have less := (List.pairwise_append.1 sorted).2.2 earlier ahead name List.mem_cons_self
    exact unanswered earlier (List.mem_append_left _ ahead) less

/-! ### References -/

/-- A type name in the package at an import path. -/
structure TypeName where
  name : String
  path : String

/-- A source file of a directory that is no test and can be read, by its name. -/
def Readable (files : FileTree) (dir : Path) (file : String) (unit : SourceUnit) : Prop :=
  file ∈ packageNames files dir ∧ Plain.unit? files (dir.join file) = some unit

/-- The first readable file of a directory, in the order of their names, that declares a name, and
what it declares it as. -/
def Declares (files : FileTree) (dir : Path) (name : String) (object : Go.Object)
    (unit : SourceUnit) : Prop :=
  ∃ file, Readable files dir file unit ∧ unit.lookup name = some object ∧
    ∀ earlier other, Readable files dir earlier other → earlier < file →
      other.lookup name = none

/-- A name is declared as a type, in the package at its path as seen from a directory. -/
def Defines (w : World) (dir : Path) (a : TypeName) (spec : TypeSpec) (unit : SourceUnit) : Prop :=
  a.path ≠ "" ∧ ∃ pkgDir, Plain.packageDir w a.path dir = some pkgDir ∧
    Declares w.files pkgDir a.name (.type spec) unit

/-- One reference: a name that is declared as another name refers to that one in the same package,
or in the package that the declaring file imports under its qualifier. -/
inductive Refers (w : World) (dir : Path) (a : TypeName) : TypeName → Prop where
  | ident {spec : TypeSpec} {unit : SourceUnit} {inner : String}
      (defined : Defines w dir a spec unit) (kind : spec.type.kind = .ident inner) :
      Refers w dir a ⟨inner, a.path⟩
  | qualified {spec : TypeSpec} {unit : SourceUnit} {package inner target : String}
      (defined : Defines w dir a spec unit) (kind : spec.type.kind = .qualified package inner)
      (known : Plain.imported w unit package = some target) : Refers w dir a ⟨inner, target⟩

/-- The end of a chain: a name that is declared as a type which is no name. -/
def Ends (w : World) (dir : Path) (a : TypeName) (type : TypeExpr) (unit : SourceUnit) : Prop :=
  ∃ spec, Defines w dir a spec unit ∧ spec.type = type ∧ type.isConcrete = true

/-- A chain of so many references. -/
inductive Chain (w : World) (dir : Path) : Nat → TypeName → TypeName → Prop where
  | refl (a : TypeName) : Chain w dir 0 a a
  | cons {n : Nat} {a b c : TypeName} (first : Refers w dir a b) (rest : Chain w dir n b c) :
      Chain w dir (n + 1) a c

variable {w : World} {dir : Path}

theorem findSome?_units_eq_some_iff {files : FileTree} {name : String} {object : Go.Object}
    {unit : SourceUnit} :
    ((Plain.units files dir).findSome? fun u => (u.lookup name).map (·, u)) = some (object, unit) ↔
      Declares files dir name object unit := by
  have answer (found : Option SourceUnit) :
      (found.bind fun u => (u.lookup name).map (·, u)) = some (object, unit) ↔
        found = some unit ∧ unit.lookup name = some object := by
    rw [Option.bind_eq_some_iff]
    constructor
    · rintro ⟨u, rfl, object⟩
      obtain ⟨o, declared, same⟩ := Option.map_eq_some_iff.1 object
      obtain ⟨rfl, rfl⟩ := Prod.mk.inj same
      exact ⟨rfl, declared⟩
    · rintro ⟨rfl, declared⟩
      exact ⟨unit, rfl, by rw [declared]; rfl⟩
  have silent (found : Option SourceUnit) :
      (found.bind fun u => (u.lookup name).map (·, u)) = none ↔
        ∀ other, found = some other → other.lookup name = none := by
    cases found <;> simp
  rw [Plain.units, packageFiles_eq, List.filterMap_map, ← List.head?_filterMap,
    List.filterMap_filterMap, List.head?_filterMap,
    findSome?_eq_some_iff_of_sorted (packageNames_sorted files dir)]
  simp only [Function.comp_apply, answer, silent]
  constructor
  · rintro ⟨file, member, ⟨read, declared⟩, first⟩
    exact ⟨file, ⟨member, read⟩, declared,
      fun earlier other readable less => first earlier readable.1 less other readable.2⟩
  · rintro ⟨file, ⟨member, read⟩, declared, first⟩
    exact ⟨file, member, ⟨read, declared⟩,
      fun earlier listed less other read' => first earlier other ⟨listed, read'⟩ less⟩

theorem declaredObject_eq_some_iff {a : TypeName} {spec : TypeSpec} {unit : SourceUnit} :
    Plain.declaredObject w a.name dir a.path = some (.type spec, unit) ↔
      Defines w dir a spec unit := by
  unfold Plain.declaredObject Defines
  by_cases empty : a.path = ""
  · simp [empty]
  · rw [if_neg (by simpa using empty), Option.bind_eq_some_iff]
    simp only [findSome?_units_eq_some_iff, ne_eq, empty, not_false_eq_true, true_and]

/-! ### Chains -/

section Steps

variable {a b c : TypeName} {type : TypeExpr} {unit : SourceUnit}

theorem Defines.unique {spec spec' : TypeSpec} {unit' : SourceUnit}
    (first : Defines w dir a spec unit) (second : Defines w dir a spec' unit') :
    spec = spec' ∧ unit = unit' := by
  rw [← declaredObject_eq_some_iff] at first second
  rw [first] at second
  simpa using second

theorem Defines.ends_iff {spec : TypeSpec} {unit' : SourceUnit}
    (defined : Defines w dir a spec unit') :
    Ends w dir a type unit ↔ spec.type.isConcrete = true ∧ spec.type = type ∧ unit' = unit := by
  constructor
  · rintro ⟨spec', defined', rfl, concrete⟩
    obtain ⟨rfl, rfl⟩ := defined.unique defined'
    exact ⟨concrete, rfl, rfl⟩
  · rintro ⟨concrete, rfl, rfl⟩
    exact ⟨spec, defined, rfl, concrete⟩

theorem Defines.refers_iff {spec : TypeSpec} (defined : Defines w dir a spec unit) :
    Refers w dir a b ↔
      (∃ inner, spec.type.kind = .ident inner ∧ b = ⟨inner, a.path⟩) ∨
      ∃ package inner target, spec.type.kind = .qualified package inner ∧
        Plain.imported w unit package = some target ∧ b = ⟨inner, target⟩ := by
  constructor
  · intro refers
    cases refers with
    | ident defined' kind =>
      obtain ⟨rfl, rfl⟩ := defined.unique defined'
      exact .inl ⟨_, kind, rfl⟩
    | qualified defined' kind known =>
      obtain ⟨rfl, rfl⟩ := defined.unique defined'
      exact .inr ⟨_, _, _, kind, known, rfl⟩
  · rintro (⟨inner, kind, rfl⟩ | ⟨package, inner, target, kind, known, rfl⟩)
    · exact .ident defined kind
    · exact .qualified defined kind known

theorem Refers.defines (refers : Refers w dir a b) : ∃ spec unit, Defines w dir a spec unit := by
  cases refers with
  | ident defined kind => exact ⟨_, _, defined⟩
  | qualified defined kind known => exact ⟨_, _, defined⟩

/-- A name refers to one other at most. -/
theorem Refers.unique (first : Refers w dir a b) (second : Refers w dir a c) : b = c := by
  obtain ⟨spec, unit, defined⟩ := first.defines
  rw [defined.refers_iff] at first second
  rcases first with ⟨inner, kind, rfl⟩ | ⟨package, inner, target, kind, known, rfl⟩
  · simpa [kind, eq_comm] using second
  · simpa [kind, known, eq_comm] using second

/-- An end refers to nothing. -/
theorem Ends.not_refers (ends : Ends w dir a type unit) : ¬Refers w dir a b := by
  obtain ⟨spec, defined, rfl, concrete⟩ := ends
  rw [defined.refers_iff]
  rintro (⟨inner, kind, -⟩ | ⟨package, inner, target, kind, -⟩)
  · simp [TypeExpr.isConcrete, kind] at concrete
  · simp [TypeExpr.isConcrete, kind] at concrete

/-- A chain to an end goes on from every name that is reached. -/
theorem Chain.rest {m n : Nat} (reached : Chain w dir m a b) (whole : Chain w dir n a c)
    (ends : Ends w dir c type unit) : ∃ k, n = m + k ∧ Chain w dir k b c := by
  induction reached generalizing n with
  | refl a => exact ⟨n, (Nat.zero_add n).symm, whole⟩
  | cons first rest ih =>
    cases whole with
    | refl => exact absurd first ends.not_refers
    | cons first' rest' =>
      obtain rfl := first.unique first'
      obtain ⟨k, rfl, chain⟩ := ih rest'
      exact ⟨k, by omega, chain⟩

/-- No chain from a name that comes back to itself has an end. -/
theorem Chain.not_ends_of_cycle {k n : Nat} (cycle : Chain w dir (k + 1) a a)
    (whole : Chain w dir n a c) : ¬Ends w dir c type unit := by
  intro ends
  induction n using Nat.strong_induction_on with
  | _ n ih =>
    obtain ⟨shorter, rfl, chain⟩ := cycle.rest whole ends
    exact ih shorter (by omega) chain

end Steps

/-- Following a name through one type more: it is an end, or refers to a name that is followed. -/
theorem lookup_succ_eq_some_iff {n : Nat} {a : TypeName} {type : TypeExpr} {unit : SourceUnit} :
    Plain.lookup w dir (n + 1) a.name a.path = some (type, unit) ↔
      Ends w dir a type unit ∨
        ∃ b, Refers w dir a b ∧ Plain.lookup w dir n b.name b.path = some (type, unit) := by
  rw [Plain.lookup]
  split
  · rename_i spec u found
    have defined : Defines w dir a spec u := declaredObject_eq_some_iff.1 found
    simp only [defined.ends_iff, defined.refers_iff, TypeExpr.isConcrete]
    cases spec.type.kind with
    | qualified package inner => simp [Option.bind_eq_some_iff]
    | ident inner => simp
    | _ => simp
  · rename_i other
    have undefined (spec : TypeSpec) (unit : SourceUnit) : ¬Defines w dir a spec unit :=
      fun defined => other spec unit (declaredObject_eq_some_iff.2 defined)
    constructor
    · intro found
      cases found
    · rintro (⟨spec, defined, -⟩ | ⟨b, refers, -⟩)
      · exact absurd defined (undefined spec unit)
      · obtain ⟨spec, unit, defined⟩ := refers.defines
        exact absurd defined (undefined spec unit)

/-- Following a name through a number of types finds the end of its chain, if it comes before. -/
theorem lookup_eq_some_iff {n : Nat} {a : TypeName} {type : TypeExpr} {unit : SourceUnit} :
    Plain.lookup w dir n a.name a.path = some (type, unit) ↔
      ∃ k < n, ∃ b, Chain w dir k a b ∧ Ends w dir b type unit := by
  induction n generalizing a with
  | zero => simp [Plain.lookup]
  | succ n ih =>
    rw [lookup_succ_eq_some_iff]
    constructor
    · rintro (ends | ⟨b, first, found⟩)
      · exact ⟨0, Nat.succ_pos n, a, .refl a, ends⟩
      · obtain ⟨k, less, c, rest, ends⟩ := ih.1 found
        exact ⟨k + 1, Nat.succ_lt_succ less, c, .cons first rest, ends⟩
    · rintro ⟨k, less, c, chain, ends⟩
      cases chain with
      | refl => exact .inl ends
      | cons first rest =>
        exact .inr ⟨_, first, ih.2 ⟨_, Nat.lt_of_succ_lt_succ less, c, rest, ends⟩⟩

/-! ### The lookup with memory -/

section SameFound

variable {plain answer : Option (TypeExpr × SourceUnit)} {type : TypeExpr}

theorem SameFound.of_some (same : SameFound plain answer) {unit' : SourceUnit}
    (answered : answer = some (type, unit')) :
    ∃ unit, plain = some (type, unit) ∧ Plain.Respelled unit unit' := by
  subst answered
  cases same with
  | @some x _ agree =>
    obtain ⟨type, unit⟩ := x
    obtain ⟨rfl, respelled⟩ := agree
    exact ⟨unit, rfl, respelled⟩

theorem SameFound.to_some (same : SameFound plain answer) {unit : SourceUnit}
    (found : plain = some (type, unit)) :
    ∃ unit', answer = some (type, unit') ∧ Plain.Respelled unit unit' := by
  subst found
  cases same with
  | @some _ y agree =>
    obtain ⟨type', unit'⟩ := y
    obtain ⟨rfl, respelled⟩ := agree
    exact ⟨unit', rfl, respelled⟩

end SameFound

/-- Looking up a type with empty caches follows the chain that its name starts. An answer is the end
of that chain after at most 31 references, with the file that declares it; every such end is
answered; and a name from which the chain comes back to a name on it has no answer. -/
theorem lookupTypeSpec_follows {w : World} (rooted : w.files.cwd.isAbsolute = true)
    (lawful : w.toolchain.Lawful) (clearImports : ClearImports w.files) (name : String) (dir : Path)
    {path : String} (clear : '#' ∉ path.toList) {m : Memory} (new : m.caches = {}) :
    let answer := (outcome (lookupTypeSpec name dir path) w m).1
    (∀ type unit', answer = some (type, unit') → type.isConcrete = true ∧
        ∃ n ≤ 31, ∃ b unit, Chain w dir n ⟨name, path⟩ b ∧ Ends w dir b type unit ∧
          Plain.Respelled unit unit') ∧
      (∀ n ≤ 31, ∀ b type unit, Chain w dir n ⟨name, path⟩ b → Ends w dir b type unit →
        ∃ unit', answer = some (type, unit') ∧ Plain.Respelled unit unit') ∧
      ∀ i k b, Chain w dir i ⟨name, path⟩ b → Chain w dir (k + 1) b b → answer = none := by
  intro answer
  have same : SameFound (Plain.lookup w dir maxLookups name path) answer :=
    (yields_lookupFrom rooted lawful (clearUnits_of_clearImports clearImports) dir maxLookups name
      clear m (sound_of_empty w new)).1
  have sound (type : TypeExpr) (unit' : SourceUnit) (answered : answer = some (type, unit')) :
      ∃ n ≤ 31, ∃ b unit, Chain w dir n ⟨name, path⟩ b ∧ Ends w dir b type unit ∧
        Plain.Respelled unit unit' := by
    obtain ⟨unit, found, respelled⟩ := same.of_some answered
    obtain ⟨n, less, b, chain, ends⟩ := (lookup_eq_some_iff (a := ⟨name, path⟩)).1 found
    exact ⟨n, Nat.le_of_lt_succ less, b, unit, chain, ends, respelled⟩
  refine ⟨fun type unit' answered => ?_, fun n limit b type unit chain ends => ?_,
    fun i k b reached cycle => ?_⟩
  · obtain ⟨n, limit, b, unit, chain, ends, respelled⟩ := sound type unit' answered
    have concrete : type.isConcrete = true := by
      obtain ⟨spec, -, -, concrete⟩ := ends
      exact concrete
    exact ⟨concrete, n, limit, b, unit, chain, ends, respelled⟩
  · exact same.to_some
      ((lookup_eq_some_iff (a := ⟨name, path⟩)).2 ⟨n, Nat.lt_succ_of_le limit, b, chain, ends⟩)
  · refine Option.eq_none_iff_forall_ne_some.2 ?_
    rintro ⟨type, unit'⟩ answered
    obtain ⟨n, -, c, unit, chain, ends, -⟩ := sound type unit' answered
    obtain ⟨rest, -, below⟩ := reached.rest chain ends
    exact cycle.not_ends_of_cycle below ends

/-- A name that is followed into a package that is not called as its path suggests. -/
theorem lookupTypeSpec_follows_renamed :
    let files : FileTree := ⟨"/w", Dict.ofList [
      (["w"], .dir), (["w", "a"], .dir), (["w", "s"], .dir),
      (["w", "go.mod"], .file (Utf8.ofString "module m.io\n")),
      (["w", "a", "a.go"], .file (Utf8.ofString
        "package a\nimport \"m.io/s\"\ntype Handle = store.DB\n")),
      (["w", "s", "s.go"], .file (Utf8.ofString "package store\ntype DB struct{}\n"))]⟩
    let w : World := ⟨files, .offline⟩
    let answer := (outcome (lookupTypeSpec "Handle" "a" "m.io/a") w {}).1
    answer.map (·.1.text) = some "struct{}" ∧
      ∃ n ≤ 31, ∃ b type unit, Chain w "a" n ⟨"Handle", "m.io/a"⟩ b ∧ Ends w "a" b type unit ∧
        type.text = "struct{}" := by
  intro files w answer
  have clearImports : ClearImports files := by decide +kernel
  have offline : Toolchain.offline.Lawful := ⟨fun _ _ _ _ => rfl, fun _ _ _ _ => rfl⟩
  have text : answer.map (·.1.text) = some "struct{}" := by decide +kernel
  have clear : '#' ∉ "m.io/a".toList := by decide
  obtain ⟨⟨type, unit'⟩, answered, same⟩ := Option.map_eq_some_iff.1 text
  obtain ⟨-, n, limit, b, unit, chain, ends, -⟩ :=
    (lookupTypeSpec_follows (w := w) (by decide) offline clearImports "Handle" "a" clear rfl).1 type
      unit' answered
  exact ⟨text, n, limit, b, type, unit, chain, ends, same⟩

/-- One import path holds a `#`: the directory of its package, as seen from the importing one, is
remembered under the key of another package as seen from elsewhere, and taken for that one's. -/
theorem lookupTypeSpec_misled :
    let files : FileTree := ⟨"/w", Dict.ofList [
      (["w"], .dir), (["w", "a"], .dir), (["w", "t"], .dir), (["w", "t#"], .dir),
      (["w", "t#", "w"], .dir), (["w", "t#", "w", "x"], .dir), (["w", "x#"], .dir),
      (["w", "x#", "w"], .dir), (["w", "x#", "w", "a"], .dir),
      (["w", "go.mod"], .file (Utf8.ofString "module m.io\n")),
      (["w", "a", "a.go"], .file (Utf8.ofString
        "package a\nimport \"m.io/t#/w/x\"\nimport \"m.io/t\"\ntype U = q.V\n")),
      (["w", "t", "t.go"], .file (Utf8.ofString "package q\ntype V struct{}\n")),
      (["w", "t#", "w", "x", "f.go"], .file (Utf8.ofString "package o\ntype V func()\n"))]⟩
    let w : World := ⟨files, .offline⟩
    let dir : Path := "/w/x#/w/a"
    let answer := (outcome (lookupTypeSpec "U" dir "m.io/a") w {}).1
    answer.map (·.1.text) = some "func()" ∧
      ∃ n ≤ 31, ∃ b type unit, Chain w dir n ⟨"U", "m.io/a"⟩ b ∧ Ends w dir b type unit ∧
        type.text = "struct{}" := by
  intro files w dir answer
  have text : answer.map (·.1.text) = some "func()" := by decide +kernel
  have plain : (Plain.lookup w dir 32 "U" "m.io/a").map (·.1.text) = some "struct{}" := by
    decide +kernel
  obtain ⟨⟨type, unit⟩, found, same⟩ := Option.map_eq_some_iff.1 plain
  obtain ⟨n, less, b, chain, ends⟩ := (lookup_eq_some_iff (a := ⟨"U", "m.io/a"⟩)).1 found
  exact ⟨text, n, Nat.le_of_lt_succ less, b, type, unit, chain, ends, same⟩

end Resolve
end Marginalia
