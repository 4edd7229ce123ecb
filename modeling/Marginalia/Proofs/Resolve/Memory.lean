/-
Module: Marginalia.Proofs.Resolve.Memory
Purpose: With a memory in which every entry is right, the resolver answers as without memory, and
  keeps every entry right.
Main exports:
  Resolve.Sound, Resolve.Remembers, Resolve.remembers_sound, Resolve.yields_modFile,
  Resolve.yields_importPath, Resolve.yields_importName, Resolve.yields_packageImportDir,
  Resolve.yields_packageImportName, Resolve.yields_lookupFrom
-/
import Marginalia.Proofs.Cache.Snapshot
import Marginalia.Proofs.Resolve.Plain
import Marginalia.Proofs.Workspace.Query

namespace Marginalia

open Query

namespace Resolve

open Go (SourceUnit TypeExpr defaultImportName)

/-! ### Stores -/

theorem keep_eq (store : StringStore) (key : String) (value : Option String) :
    store.keep key value =
      (Plain.kept value, match Plain.kept value with
        | some v => store.insert key v
        | none => store) := by
  cases value with
  | none => rfl
  | some v => cases empty : v.isEmpty <;> simp [StringStore.keep, Plain.kept, Option.filter, empty]

/-- What an entry of a store has to say: the answer without memory to the question that its key
stands for. -/
def Meaning (w : World) : StoreName → (key value : String) → Prop
  | .modFile, dir, value => Plain.modFile w.files dir = some value
  | .importPath, dir, value => Plain.importPathOf w.files dir = some value
  | .importName, dir, value => Plain.importNameOf w.files dir = some value
  | .packageDir, key, value => ∀ pkg dir, '#' ∉ pkg.toList → packageKey pkg dir = key →
      Plain.packageDir w pkg dir = some value
  | .packageName, key, value => ∀ pkg dir, '#' ∉ pkg.toList → packageKey pkg dir = key →
      Plain.packageName w pkg dir = some value

/-- Every entry of the memory is right. -/
structure Sound (w : World) (m : Memory) : Prop where
  units : m.caches.units.Holds (UnitFrom Set.univ)
  stores : ∀ name key value, (m.caches.modules.store name).get? key = some value →
    Meaning w name key value

theorem sound_of_empty (w : World) {m : Memory} (new : m.caches = {}) : Sound w m := by
  constructor
  · rw [new]
    exact VersionStore.holds_empty _
  · rw [new]
    rintro (_ | _ | _ | _ | _) key value ⟨⟩

theorem keepsUnits_sound (w : World) : KeepsUnits Set.univ (Sound w) :=
  ⟨fun _ sound => sound.units, fun _ _ sound holds => ⟨holds, sound.stores⟩⟩

/-! ### What invariants let be kept -/

/-- The answer to a question may be kept without harm to an invariant of the memory, and where one
is kept it is the right one. -/
structure KeepsAnswer (keeps : Memory → Prop) (name : StoreName) (key : String)
    (plain : Option String) : Prop where
  held : ∀ m, keeps m → ∀ value, (m.caches.modules.store name).get? key = some value →
    plain = some value
  insert : ∀ m value, keeps m → plain = some value →
    keeps { m with caches := { m.caches with
      modules := m.caches.modules.setStore name
        ((m.caches.modules.store name).insert key value) } }

/-- All that the resolver keeps may be kept without harm to an invariant of the memory, if of the
questions about packages only certain ones are asked. -/
structure Remembers (w : World) (asked : (pkg : String) → (dir : Path) → Prop)
    (keeps : Memory → Prop) : Prop where
  units : KeepsUnits Set.univ keeps
  calls : ∀ m calls, keeps m → keeps { m with calls }
  modFile : ∀ dir, KeepsAnswer keeps .modFile dir (Plain.modFile w.files dir)
  importPath : ∀ dir, KeepsAnswer keeps .importPath dir (Plain.importPathOf w.files dir)
  importName : ∀ dir, KeepsAnswer keeps .importName dir (Plain.importNameOf w.files dir)
  packageDir : ∀ pkg dir, asked pkg dir →
    KeepsAnswer keeps .packageDir (packageKey pkg dir) (Plain.packageDir w pkg dir)
  packageName : ∀ pkg dir, asked pkg dir →
    KeepsAnswer keeps .packageName (packageKey pkg dir) (Plain.packageName w pkg dir)

/-- If all entries of the stores are right, they still are after a right one was put there. -/
theorem stores_insert {means : StoreName → (key value : String) → Prop} {modules : ModuleCache}
    (right : ∀ name key value, (modules.store name).get? key = some value → means name key value)
    {name : StoreName} {key value : String} (new : means name key value) :
    ∀ name' key' value',
      ((modules.setStore name ((modules.store name).insert key value)).store name').get? key' =
        some value' → means name' key' value' := by
  intro name' key' value' held
  rw [ModuleCache.store_setStore] at held
  split at held
  · rename_i same
    subst same
    rw [Dict.get?_insert] at held
    split at held
    · rename_i same
      rw [same, ← Option.some.inj held]
      exact new
    · exact right _ _ _ held
  · exact right _ _ _ held

/-- A key tells its package and its directory, if the package has no mark in it. -/
theorem packageKey_injective {pkg pkg' : String} {dir dir' : Path} (clear : '#' ∉ pkg.toList)
    (clear' : '#' ∉ pkg'.toList) (same : packageKey pkg dir = packageKey pkg' dir') :
    pkg = pkg' ∧ dir = dir' := by
  have cut (pkg : String) (dir : Path) (clear : '#' ∉ pkg.toList) :
      Text.cut? ['#'] (packageKey pkg dir).toList = some (pkg.toList, dir.toList) := by
    refine Text.cut?_eq_some_iff.2 ⟨?_, clear⟩
    simp [packageKey, String.toList_append]
  have parts := cut pkg dir clear
  rw [same, cut pkg' dir' clear'] at parts
  obtain ⟨first, second⟩ := Prod.mk.inj (Option.some.inj parts)
  exact ⟨String.toList_inj.1 first.symm, String.toList_inj.1 second.symm⟩

theorem forall_packageKey_iff {pkg : String} (clear : '#' ∉ pkg.toList) {dir : Path}
    {good : String → Path → Prop} :
    (∀ pkg' dir', '#' ∉ pkg'.toList → packageKey pkg' dir' = packageKey pkg dir → good pkg' dir') ↔
      good pkg dir := by
  constructor
  · intro all
    exact all pkg dir clear rfl
  · intro one pkg' dir' clear' same
    obtain ⟨rfl, rfl⟩ := packageKey_injective clear' clear same
    exact one

theorem keepsAnswer_sound {w : World} {name : StoreName} {key : String} {plain : Option String}
    (means : ∀ value, Meaning w name key value ↔ plain = some value) :
    KeepsAnswer (Sound w) name key plain := by
  constructor
  · intro m sound value held
    exact (means value).1 (sound.stores _ _ _ held)
  · intro m value sound answer
    exact ⟨sound.units, stores_insert sound.stores ((means value).2 answer)⟩

/-- With the mark of keys in no package, a memory stays right. -/
theorem remembers_sound (w : World) : Remembers w (fun pkg _ => '#' ∉ pkg.toList) (Sound w) where
  units := keepsUnits_sound w
  calls := fun _ _ sound => ⟨sound.units, sound.stores⟩
  modFile := fun _ => keepsAnswer_sound fun _ => Iff.rfl
  importPath := fun _ => keepsAnswer_sound fun _ => Iff.rfl
  importName := fun _ => keepsAnswer_sound fun _ => Iff.rfl
  packageDir := fun _ _ clear => keepsAnswer_sound fun _ => forall_packageKey_iff clear
  packageName := fun _ _ clear => keepsAnswer_sound fun _ => forall_packageKey_iff clear

variable {w : World} {asked : String → Path → Prop} {keeps : Memory → Prop}

/-- A question whose answers are kept is answered as it is computed. -/
theorem yields_remember {name : StoreName} {key : String} {compute : Query (Option String)}
    {plain : Option String} (free : KeepsAnswer keeps name key (Plain.kept plain))
    (computes : Yields w keeps compute (· = plain)) :
    Yields w keeps (remember name key compute) (· = Plain.kept plain) := by
  unfold remember
  refine yields_get.bind fun m kept => ?_
  cases held : (m.caches.modules.store name).get? key with
  | some hit =>
    apply yields_pure
    exact (free.held m kept hit held).symm
  | none =>
    refine computes.bind ?_
    rintro value rfl
    intro m kept
    rw [outcome_bind, outcome_get]
    dsimp only
    rw [keep_eq]
    cases answer : Plain.kept value with
    | some value => exact ⟨rfl, free.insert m value kept answer⟩
    | none =>
      have same : m.caches.modules.setStore name (m.caches.modules.store name) =
          m.caches.modules := by
        cases name <;> rfl
      refine ⟨rfl, ?_⟩
      change keeps { m with caches := { m.caches with
        modules := m.caches.modules.setStore name (m.caches.modules.store name) } }
      rwa [same]

/-! ### Modules and import paths -/

theorem isEmpty_join_modFileName (dir : Path) : (dir.join modFileName).isEmpty = false := by
  obtain ⟨-, init, components⟩ := join_modFileName dir
  rw [Bool.eq_false_iff, Ne, String.isEmpty_iff, ← Path.components_eq_nil_iff, components]
  simp

theorem yields_modFile (free : Remembers w asked keeps) (rooted : w.files.cwd.isAbsolute = true)
    (dir : Path) :
    Yields w keeps (modFile dir) (· = Plain.modFile w.files dir) := by
  have plain : Plain.kept ((((w.files.absolute dir).ancestors).map (·.join modFileName)).find?
      w.files.isFile) = Plain.modFile w.files dir := by
    rw [List.find?_map, Plain.modFile, Plain.modDir?]
    simp only [Function.comp_def]
    cases (w.files.absolute dir).ancestors.find? fun x => w.files.isFile (x.join modFileName) with
    | none => rfl
    | some x => simp [Plain.kept, Option.filter, isEmpty_join_modFileName]
  have again : Plain.modFile w.files (w.files.absolute dir) = Plain.modFile w.files dir := by
    rw [Plain.modFile, Plain.modDir?,
      FileTree.absolute_of_isAbsolute (FileTree.isAbsolute_absolute rooted dir)]
    rfl
  unfold modFile
  refine yields_read.bind ?_
  rintro _ rfl
  rw [← plain]
  refine yields_remember ?_ (yields_pure rfl)
  rw [plain, ← again]
  exact free.modFile _

theorem isAbsolute_of_packageDirOf? {files : FileTree} (rooted : files.cwd.isAbsolute = true)
    {p dir : Path} (found : packageDirOf? files p = some dir) : dir.isAbsolute = true := by
  have starts := FileTree.isAbsolute_absolute rooted p
  unfold packageDirOf? at found
  dsimp only at found
  split at found
  · rw [(Path.components_of_parent? found).2.1, starts]
  · rw [← Option.some.inj found, starts]

theorem yields_importPath (free : Remembers w asked keeps)
    (rooted : w.files.cwd.isAbsolute = true) (p : Path) :
    Yields w keeps (importPath p) (· = Plain.importPath w.files p) := by
  unfold importPath Plain.importPath
  refine yields_read.bind ?_
  rintro _ rfl
  dsimp only
  cases found : packageDirOf? w.files p with
  | none => exact yields_pure rfl
  | some dir =>
    have starts := isAbsolute_of_packageDirOf? rooted found
    refine yields_remember (free.importPath dir) ?_
    cases nearest : dir.ancestors.find? w.files.pathExists with
    | none =>
      refine yields_pure ?_
      rw [Plain.modDir?_of_absent starts nearest]
      rfl
    | some present =>
      refine (yields_modFile free rooted present).bind ?_
      rintro _ rfl
      rw [Plain.modFile, Plain.modDir?_of_present starts nearest]
      cases Plain.modDir? w.files dir with
      | none => exact yields_pure rfl
      | some x => exact yields_pure rfl

/-! ### Package clauses -/

/-- A source file is read as without memory, though perhaps under another spelling of its path. -/
theorem yields_parseFile (free : KeepsUnits Set.univ keeps) (p : Path) :
    Yields w keeps (parseFile p) fun answer =>
      (Plain.unit? w.files p = none ∧ ∃ e, answer = .error e) ∨
      ∃ unit unit', Plain.unit? w.files p = some unit ∧ answer = .ok unit' ∧
        Plain.Respelled unit unit' := by
  unfold parseFile Plain.unit?
  refine (yields_readFile p).bind ?_
  rintro _ rfl
  cases w.files.read p with
  | error e => exact yields_pure (.inl ⟨rfl, .io e, rfl⟩)
  | ok content =>
    refine (yields_parseBytes free (Set.mem_univ p) content).mono ?_
    rintro _ ⟨q, -, spelled, rfl⟩
    dsimp only [Except.toOption, Option.bind_some]
    have respelled := Plain.sourceUnit_respell p q content
    have own := Plain.sourceUnit_respell p p content
    cases plain : sourceUnit p content with
    | error e =>
      cases answer : sourceUnit q content with
      | error e' => exact .inl ⟨rfl, e', rfl⟩
      | ok unit' => simp [plain, answer, Except.toOption] at respelled
    | ok unit =>
      simp only [plain, Except.toOption, Option.map_some, Option.some.injEq] at own respelled
      cases answer : sourceUnit q content with
      | error e' => simp [answer] at respelled
      | ok unit' =>
        simp only [answer, Option.some.injEq] at respelled
        refine .inr ⟨unit, unit', rfl, rfl, ?_⟩
        rw [respelled, own]
        exact ⟨spelled.symm, rfl⟩

theorem yields_firstPackage (free : KeepsUnits Set.univ keeps) (ps : List Path) :
    Yields w keeps (firstPackage ps)
      (· = (ps.filterMap (Plain.unit? w.files)).findSome?
        fun unit => Plain.kept (some unit.package)) := by
  induction ps with
  | nil => exact yields_pure rfl
  | cons p ps ih =>
    unfold firstPackage
    refine (yields_parseFile free p).bind ?_
    rintro answer (⟨failed, e, rfl⟩ | ⟨unit, unit', parsed, rfl, -, respelled⟩)
    · rw [List.filterMap_cons, failed]
      exact ih
    · have package : unit'.package = unit.package := by rw [← respelled]
      rw [List.filterMap_cons, parsed, List.findSome?_cons]
      simp only [package]
      cases empty : unit.package.isEmpty with
      | true => simpa [Plain.kept, Option.filter, empty] using ih
      | false =>
        simp only [Plain.kept, Option.filter, empty]
        exact yields_pure rfl

theorem yields_packageClause (free : KeepsUnits Set.univ keeps) (dir : Path) :
    Yields w keeps (packageClause dir) (· = Plain.packageClause w.files dir) := by
  unfold packageClause
  refine yields_read.bind ?_
  rintro _ rfl
  exact yields_firstPackage free _

theorem yields_importName (free : Remembers w asked keeps)
    (rooted : w.files.cwd.isAbsolute = true) (p : Path) :
    Yields w keeps (importName p) (· = Plain.importName w.files p) := by
  unfold importName Plain.importName
  refine yields_read.bind ?_
  rintro _ rfl
  cases packageDirOf? w.files p with
  | none => exact yields_pure rfl
  | some dir =>
    refine yields_remember (free.importName dir) ?_
    refine (yields_packageClause free.units dir).bind ?_
    rintro _ rfl
    cases Plain.packageClause w.files dir with
    | some name => exact yields_pure rfl
    | none =>
      refine (yields_importPath free rooted dir).bind ?_
      rintro _ rfl
      cases Plain.importPath w.files dir with
      | some path => exact yields_pure rfl
      | none => exact yields_pure rfl

/-! ### Packages -/

theorem yields_localPackageDir (free : Remembers w asked keeps)
    (rooted : w.files.cwd.isAbsolute = true) (pkg : String) (dir : Path) :
    Yields w keeps (localPackageDir pkg dir) (· = Plain.localPackageDir w.files pkg dir) := by
  unfold localPackageDir Plain.localPackageDir
  refine yields_read.bind ?_
  rintro _ rfl
  refine (yields_modFile free rooted dir).bind ?_
  rintro _ rfl
  rw [Plain.modFile]
  cases Plain.modDir? w.files dir with
  | none => exact yields_pure rfl
  | some x => exact yields_pure rfl

theorem yields_askPackageDir (free : Remembers w asked keeps) (pkg : String) (dir : Path) :
    Yields w keeps (askPackageDir pkg dir) (· = w.toolchain.packageDir pkg dir) :=
  fun m kept => ⟨rfl, free.calls m _ kept⟩

theorem yields_askPackageName (free : Remembers w asked keeps) (pkg : String) (dir : Path) :
    Yields w keeps (askPackageName pkg dir) (· = w.toolchain.packageName pkg dir) :=
  fun m kept => ⟨rfl, free.calls m _ kept⟩

theorem yields_packageImportDir (free : Remembers w asked keeps)
    (rooted : w.files.cwd.isAbsolute = true) {pkg : String} {dir : Path} (among : asked pkg dir) :
    Yields w keeps (packageImportDir pkg dir) (· = Plain.packageDir w pkg dir) := by
  refine yields_remember (free.packageDir pkg dir among) ?_
  refine (yields_localPackageDir free rooted pkg dir).bind ?_
  rintro _ rfl
  cases Plain.localPackageDir w.files pkg dir with
  | some found => exact yields_pure rfl
  | none =>
    refine (yields_askPackageDir free pkg dir).bind ?_
    rintro _ rfl
    exact yields_pure rfl

theorem yields_packageImportName (free : Remembers w asked keeps)
    (rooted : w.files.cwd.isAbsolute = true) {pkg : String} {dir : Path} (among : asked pkg dir) :
    Yields w keeps (packageImportName pkg dir) (· = Plain.packageName w pkg dir) := by
  have asks : Yields w keeps (do return (← askPackageName pkg dir).toOption)
      (· = (w.toolchain.packageName pkg dir).toOption) := by
    refine (yields_askPackageName free pkg dir).bind ?_
    rintro _ rfl
    exact yields_pure rfl
  refine yields_remember (free.packageName pkg dir among) ?_
  refine (yields_packageImportDir free rooted among).bind ?_
  rintro _ rfl
  cases Plain.packageDir w pkg dir with
  | none => exact asks
  | some d =>
    refine (yields_packageClause free.units d).bind ?_
    rintro _ rfl
    rw [Option.bind_some]
    cases Plain.packageClause w.files d with
    | some name => exact yields_pure rfl
    | none => exact asks

/-! ### Definitions of types -/

/-- No import path in a package file has the mark that keys use. -/
def ClearUnits (files : FileTree) : Prop :=
  ∀ dir, ∀ unit ∈ Plain.units files dir, ∀ i ∈ unit.imports, '#' ∉ i.path.toList

/-- Answers that name the same thing in a source file, up to the spelling of the file's path. -/
def SameFound {α : Type} (plain answer : Option (α × SourceUnit)) : Prop :=
  Option.Rel (fun x y => x.1 = y.1 ∧ Plain.Respelled x.2 y.2) plain answer

theorem yields_firstObject (name : String) (ps : List Path) :
    Yields w (Sound w) (firstObject name ps) (SameFound
      ((ps.filterMap (Plain.unit? w.files)).findSome?
        fun unit => (unit.lookup name).map (·, unit))) := by
  induction ps with
  | nil => exact yields_pure .none
  | cons p ps ih =>
    unfold firstObject
    refine (yields_parseFile (keepsUnits_sound w) p).bind ?_
    rintro answer (⟨failed, e, rfl⟩ | ⟨unit, unit', parsed, rfl, respelled⟩)
    · rw [List.filterMap_cons, failed]
      exact ih
    · have object : unit'.lookup name = unit.lookup name := by rw [← respelled.2]; rfl
      rw [List.filterMap_cons, parsed, List.findSome?_cons]
      dsimp only
      rw [object]
      cases unit.lookup name with
      | some o => exact yields_pure (.some ⟨rfl, respelled⟩)
      | none => exact ih

theorem yields_declaredObject (rooted : w.files.cwd.isAbsolute = true) (name : String) (dir : Path)
    {path : String} (clear : '#' ∉ path.toList) :
    Yields w (Sound w) (declaredObject name dir path)
      (SameFound (Plain.declaredObject w name dir path)) := by
  unfold declaredObject Plain.declaredObject
  cases path.isEmpty with
  | true => exact yields_pure .none
  | false =>
    simp only [Bool.false_eq_true, if_false]
    refine (yields_packageImportDir (remembers_sound w) rooted clear).bind ?_
    rintro _ rfl
    cases Plain.packageDir w path dir with
    | none => exact yields_pure .none
    | some pkgDir =>
      refine yields_read.bind ?_
      rintro _ rfl
      exact yields_firstObject name _

theorem mem_units_of_declaredObject {name : String} {dir : Path} {path : String} {o : Go.Object}
    {unit : SourceUnit} (found : Plain.declaredObject w name dir path = some (o, unit)) :
    ∃ pkgDir, unit ∈ Plain.units w.files pkgDir := by
  unfold Plain.declaredObject at found
  split at found
  · cases found
  · obtain ⟨pkgDir, -, first⟩ := Option.bind_eq_some_iff.1 found
    obtain ⟨unit', member, object⟩ := List.exists_of_findSome?_eq_some first
    obtain ⟨o', -, same⟩ := Option.map_eq_some_iff.1 object
    rw [← (Prod.mk.inj same).2]
    exact ⟨pkgDir, member⟩

theorem yields_packageName (rooted : w.files.cwd.isAbsolute = true) {path : String}
    (clear : '#' ∉ path.toList) (dir : Path) :
    Yields w (Sound w) (packageName path dir) (· = Plain.realName w path dir) := by
  unfold packageName Plain.realName
  cases isStandardImportPath path with
  | true => exact yields_pure rfl
  | false => exact yields_packageImportName (remembers_sound w) rooted clear

theorem components_dir_of_respelled {unit unit' : SourceUnit}
    (respelled : Plain.Respelled unit unit') :
    unit.dir.components = unit'.dir.components := by
  have parents :
      unit.path.parent?.map Path.components = unit'.path.parent?.map Path.components := by
    rw [Path.map_components_parent?, Path.map_components_parent?, respelled.1]
  have components (p : Option Path) : (p.getD "").components = (p.map Path.components).getD [] := by
    cases p with
    | none => rfl
    | some p => rfl
  rw [SourceUnit.dir, SourceUnit.dir, components, components, parents]

/-- The imports of a file that was found are understood as without memory. -/
theorem yields_whichBy (rooted : w.files.cwd.isAbsolute = true) (lawful : w.toolchain.Lawful)
    {unit unit' : SourceUnit} (respelled : Plain.Respelled unit unit')
    (clear : ∀ i ∈ unit.imports, '#' ∉ i.path.toList) (name : String) :
    Yields w (Sound w) (unit'.imports.whichBy name fun i => packageName i.path unit'.dir)
      (· = Plain.imported w unit name) := by
  have imports : unit'.imports = unit.imports := by rw [← respelled.2]
  have names (i : Go.Import) :
      Plain.realName w i.path unit'.dir = Plain.realName w i.path unit.dir := by
    unfold Plain.realName
    rw [Plain.packageName_congr rooted lawful i.path (components_dir_of_respelled respelled)]
  unfold Go.Imports.whichBy Plain.imported
  rw [imports]
  split
  · exact yields_pure rfl
  · cases unit.imports.which name with
    | some path => exact yields_pure rfl
    | none =>
      have tests : ∀ i ∈ unit.imports.visible.filter (·.name.isNone), Yields w (Sound w)
          (do return (← packageName i.path unit'.dir) == some name)
          (· = (Plain.realName w i.path unit.dir == some name)) := by
        intro i member
        simp only [Go.Imports.visible, List.mem_filter] at member
        refine (yields_packageName rooted (clear i member.1.1) unit'.dir).bind ?_
        rintro _ rfl
        rw [names]
        exact yields_pure rfl
      refine (yields_findM? tests).bind ?_
      rintro _ rfl
      exact yields_pure rfl

theorem exists_import_of_imported {unit : SourceUnit} {name path : String}
    (found : Plain.imported w unit name = some path) : ∃ i ∈ unit.imports, i.path = path := by
  unfold Plain.imported at found
  split at found
  · cases found
  · rw [Option.or_eq_some_iff] at found
    rcases found with which | ⟨-, real⟩
    · unfold Go.Imports.which at which
      split at which
      · cases which
      · obtain ⟨i, first, rfl⟩ := Option.map_eq_some_iff.1 which
        exact ⟨i, (List.mem_filter.1 (List.mem_of_find?_eq_some first)).1, rfl⟩
    · obtain ⟨i, first, rfl⟩ := Option.map_eq_some_iff.1 real
      have member := List.mem_of_find?_eq_some first
      simp only [Go.Imports.visible, List.mem_filter] at member
      exact ⟨i, member.1.1, rfl⟩

/-- Types are found as without memory, in files that differ in the spelling of their paths at
most. -/
theorem yields_lookupFrom (rooted : w.files.cwd.isAbsolute = true) (lawful : w.toolchain.Lawful)
    (clearUnits : ClearUnits w.files) (dir : Path) (n : Nat) (name : String) {path : String}
    (clear : '#' ∉ path.toList) :
    Yields w (Sound w) (lookupFrom dir n name path)
      (SameFound (Plain.lookup w dir n name path)) := by
  induction n generalizing name path with
  | zero => exact yields_pure .none
  | succ n ih =>
    unfold lookupFrom Plain.lookup
    refine (yields_declaredObject rooted name dir clear).bind ?_
    intro answer found
    cases plain : Plain.declaredObject w name dir path with
    | none =>
      rw [plain] at found
      cases found
      exact yields_pure .none
    | some object =>
      rw [plain] at found
      obtain ⟨o, unit⟩ := object
      cases found with
      | @some _ b agree =>
        obtain ⟨o', unit'⟩ := b
        obtain ⟨rfl, respelled⟩ := agree
        cases o with
        | func decl => exact yields_pure .none
        | value spec => exact yields_pure .none
        | type spec =>
          obtain ⟨pkgDir, member⟩ := mem_units_of_declaredObject plain
          have imports := clearUnits pkgDir unit member
          dsimp only
          cases spec.type.kind with
          | qualified package inner =>
            refine (yields_whichBy rooted lawful respelled imports package).bind ?_
            rintro _ rfl
            dsimp only
            cases found : Plain.imported w unit package with
            | none => exact yields_pure .none
            | some target =>
              obtain ⟨i, listed, rfl⟩ := exists_import_of_imported found
              exact ih inner (imports i listed)
          | ident inner => exact ih inner clear
          | _ => exact yields_pure (.some ⟨rfl, respelled⟩)

end Resolve
end Marginalia
