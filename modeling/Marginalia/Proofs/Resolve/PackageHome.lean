/-
Module: Marginalia.Proofs.Resolve.PackageHome
Purpose: The package at the import path of a directory lies in that directory and has the name that
  the directory gives it.
Main exports:
  Resolve.packageDirIn?_joined, Resolve.Plain.packageDir_of_importPath,
  Resolve.Plain.packageName_of_importPath, Resolve.SoundAt, Resolve.remembers_soundAt,
  Resolve.importPath_locates
-/
import Marginalia.Proofs.Go.TreeOrder
import Marginalia.Proofs.Resolve.History

namespace Marginalia

open Query

namespace Resolve

/-! ### From a directory to its import path and back -/

/-- The import path of the names below a module. -/
theorem toList_joined (name : String) (names : List String) :
    (names.foldl (fun acc n => acc ++ "/" ++ n) name).toList =
      name.toList ++ names.flatMap fun n => '/' :: n.toList := by
  induction names generalizing name with
  | nil => simp
  | cons n names ih =>
    rw [List.foldl_cons, ih]
    simp [String.toList_append]

theorem flatMap_slash {names : List String} (nonempty : names ≠ []) :
    (names.flatMap fun n => '/' :: n.toList) =
      '/' :: Text.joinWith ['/'] (names.map String.toList) := by
  induction names with
  | nil => exact absurd rfl nonempty
  | cons n names ih =>
    by_cases last : names = []
    · simp [last, Text.joinWith]
    · rw [List.flatMap_cons, ih last, List.map_cons,
        Text.joinWith_cons (by simpa using last), List.cons_append, List.append_assoc]
      rfl

/-- A package of a module would lie below the module's directory, at the names that follow the path
of the module in its own. -/
theorem packageDirIn?_joined {modDir : Path} (name : String) {names : List String}
    (named : ∀ n ∈ names, Path.IsName n) :
    packageDirIn? modDir name (names.foldl (fun acc n => acc ++ "/" ++ n) name) =
      some (modDir.under names) := by
  have chars := toList_joined name names
  by_cases nameless : names = []
  · subst nameless
    simp [packageDirIn?]
  · rw [flatMap_slash nameless] at chars
    have longer : names.foldl (fun acc n => acc ++ "/" ++ n) name ≠ name := by
      intro same
      rw [same, List.self_eq_append_right] at chars
      exact List.cons_ne_nil _ _ chars
    rw [List.append_cons] at chars
    have split : Text.splitOn '/' (Text.joinWith ['/'] (names.map String.toList)) =
        names.map String.toList := by
      apply Text.splitOn_joinWith
      · simpa using nameless
      · intro piece member
        obtain ⟨n, among, rfl⟩ := List.mem_map.1 member
        exact (named n among).2
    rw [packageDirIn?, if_neg (by simpa using longer), Text.after?_eq_some_iff.2 chars,
      Option.map_some, split, List.foldl_map]
    simp only [String.ofList_toList]
    rfl

namespace Plain

/-- The directory of the module file that governs a full path is not the empty path. -/
theorem modDir_ne_empty {files : FileTree} {dir x modDir : Path} (absolute : dir.isAbsolute = true)
    (governs : modDir? files dir = some x)
    (holds : (x.join modFileName).parent? = some modDir) : modDir ≠ "" := by
  have rooted : x.isAbsolute = true := by
    rw [modDir?, FileTree.absolute_of_isAbsolute absolute] at governs
    exact Path.isAbsolute_of_mem_ancestors absolute (List.mem_of_find?_eq_some governs)
  have filled : x ≠ "" := by
    rintro rfl
    cases rooted
  have starts := (Path.components_of_parent? holds).2.1
  rw [Path.isAbsolute_join filled (by decide), rooted] at starts
  rintro rfl
  cases starts

/-- The package at the import path of a directory lies there. -/
theorem localPackageDir_of_importPathOf {files : FileTree} (rooted : files.cwd.isAbsolute = true)
    {dir : Path} (absolute : dir.isAbsolute = true) (there : files.isDir dir = true) {pkg : String}
    (known : importPathOf files dir = some pkg) :
    ∃ home, localPackageDir files pkg dir = some home ∧ home.components = dir.components := by
  obtain ⟨known, -⟩ := Option.filter_eq_some_iff.1 known
  obtain ⟨x, governs, known⟩ := Option.bind_eq_some_iff.1 known
  obtain ⟨modDir, holds, known⟩ := Option.bind_eq_some_iff.1 known
  obtain ⟨name, declared, known⟩ := Option.bind_eq_some_iff.1 known
  obtain ⟨names, below, joined⟩ := Option.bind_eq_some_iff.1 known
  obtain rfl := Option.some.inj joined
  have nonempty := modDir_ne_empty absolute governs holds
  rw [Path.below?, dropComponents_eq_some_iff] at below
  have named : ∀ n ∈ names, Path.IsName n := by
    intro n member
    apply Path.isName_of_mem_tail absolute
    obtain ⟨first, others, whole⟩ :=
      List.exists_cons_of_ne_nil (mt (Path.components_eq_nil_iff modDir).1 nonempty)
    rw [below, whole]
    exact List.mem_append_right _ member
  have home : (modDir.under names).components = dir.components := by
    rw [(Path.components_under nonempty named).1, below]
  refine ⟨modDir.under names, ?_, home⟩
  have found : files.isDir (modDir.under names) = true := by
    rw [isDir_congr (.refl files) rooted home, there]
  simp only [localPackageDir, Option.bind_eq_bind, governs, declared, holds, Option.bind_some,
    packageDirIn?_joined name named, found, if_true]

theorem kept_of_ne {s : String} (filled : s ≠ "") : kept (some s) = some s := by
  have test : s.isEmpty = false := by
    rwa [Bool.eq_false_iff, Ne, String.isEmpty_iff]
  simp [kept, Option.filter, test]

/-- A source file that can be read has a package name. -/
theorem package_of_unit? {files : FileTree} {p : Path} {unit : Go.SourceUnit}
    (read : unit? files p = some unit) : unit.package ≠ "" := by
  obtain ⟨content, -, parsed⟩ := Option.bind_eq_some_iff.1 read
  cases result : sourceUnit p content with
  | error e =>
    rw [result] at parsed
    cases parsed
  | ok unit' =>
    rw [result] at parsed
    obtain rfl := Option.some.inj parsed
    obtain ⟨source, -, whole⟩ := sourceUnit_eq_ok_iff.1 result
    exact Go.SourceUnit.package_ne_empty whole

/-- A directory with a source file that can be read has a name in its package clauses. -/
theorem packageClause_of_mem {files : FileTree} {dir file : Path} {unit : Go.SourceUnit}
    (member : file ∈ packageFiles files dir) (read : unit? files file = some unit) :
    ∃ name, packageClause files dir = some name ∧ name ≠ "" := by
  have listed : unit ∈ units files dir := List.mem_filterMap.2 ⟨file, member, read⟩
  cases clause : packageClause files dir with
  | none =>
    have clauseless := List.findSome?_eq_none_iff.1 clause unit listed
    rw [kept_of_ne (package_of_unit? read)] at clauseless
    cases clauseless
  | some name =>
    obtain ⟨other, -, answer⟩ := List.exists_of_findSome?_eq_some clause
    obtain ⟨-, filled⟩ := Option.filter_eq_some_iff.1 answer
    refine ⟨name, rfl, ?_⟩
    rintro rfl
    cases filled

section Home

variable {w : World} (rooted : w.files.cwd.isAbsolute = true) {dir : Path}
  (absolute : dir.isAbsolute = true) (there : w.files.isDir dir = true)

include absolute there in
theorem packageDirOf?_of_isDir : packageDirOf? w.files dir = some dir := by
  simp [packageDirOf?, FileTree.absolute_of_isAbsolute absolute, there]

include rooted absolute there

theorem packageDir_of_importPath {pkg : String} (known : importPath w.files dir = some pkg) :
    ∃ home : Path, packageDir w pkg dir = some home ∧ home.components = dir.components := by
  rw [importPath, packageDirOf?_of_isDir absolute there, Option.bind_some] at known
  obtain ⟨home, found, same⟩ := localPackageDir_of_importPathOf rooted absolute there known
  have filled : home ≠ "" := by
    rw [Ne, ← Path.components_eq_nil_iff, same]
    exact Path.components_ne_nil absolute
  refine ⟨home, ?_, same⟩
  rw [packageDir, found, Option.some_or, kept_of_ne filled]

/-- The name of the package at the import path of a directory is that of the directory: both are
what the package clauses say. -/
theorem packageName_of_importPath {pkg : String} (known : importPath w.files dir = some pkg)
    {file : Path} {unit : Go.SourceUnit} (member : file ∈ packageFiles w.files dir)
    (read : unit? w.files file = some unit) :
    ∃ name, packageName w pkg dir = some name ∧ importName w.files dir = some name := by
  obtain ⟨home, found, same⟩ := packageDir_of_importPath rooted absolute there known
  obtain ⟨name, clause, filled⟩ := packageClause_of_mem member read
  refine ⟨name, ?_, ?_⟩
  · rw [packageName, found, Option.bind_some, packageClause_congr (.refl w.files) rooted same,
      clause, Option.some_or, kept_of_ne filled]
  · rw [importName, packageDirOf?_of_isDir absolute there, Option.bind_some, importNameOf, clause,
      Option.some_or, kept_of_ne filled]

end Home

end Plain

/-! ### Memories of one package -/

/-- What an entry of a store has to say, if of the questions about packages only one is asked. No
two questions about packages share a key then, whatever marks there are in them. -/
def MeaningAt (w : World) (pkg : String) (dir : Path) : StoreName → (key value : String) → Prop
  | .packageDir, key, value => key = packageKey pkg dir → Plain.packageDir w pkg dir = some value
  | .packageName, key, value => key = packageKey pkg dir → Plain.packageName w pkg dir = some value
  | name, key, value => Meaning w name key value

/-- Every entry of the memory is right, with one package in it. -/
structure SoundAt (w : World) (pkg : String) (dir : Path) (m : Memory) : Prop where
  units : m.caches.units.Holds (UnitFrom Set.univ)
  stores : ∀ name key value, (m.caches.modules.store name).get? key = some value →
    MeaningAt w pkg dir name key value

theorem soundAt_of_empty (w : World) (pkg : String) (dir : Path) {m : Memory}
    (new : m.caches = {}) : SoundAt w pkg dir m := by
  constructor
  · rw [new]
    exact VersionStore.holds_empty _
  · rw [new]
    rintro (_ | _ | _ | _ | _) key value ⟨⟩

theorem keepsAnswer_soundAt {w : World} {pkg : String} {dir : Path} {name : StoreName}
    {key : String} {plain : Option String}
    (means : ∀ value, MeaningAt w pkg dir name key value ↔ plain = some value) :
    KeepsAnswer (SoundAt w pkg dir) name key plain := by
  constructor
  · intro m sound value held
    exact (means value).1 (sound.stores _ _ _ held)
  · intro m value sound answer
    exact ⟨sound.units, stores_insert sound.stores ((means value).2 answer)⟩

theorem remembers_soundAt (w : World) (pkg : String) (dir : Path) :
    Remembers w (fun pkg' dir' => pkg' = pkg ∧ dir' = dir) (SoundAt w pkg dir) where
  units := ⟨fun _ sound => sound.units, fun _ _ sound holds => ⟨holds, sound.stores⟩⟩
  calls := fun _ _ sound => ⟨sound.units, sound.stores⟩
  modFile := fun _ => keepsAnswer_soundAt fun _ => Iff.rfl
  importPath := fun _ => keepsAnswer_soundAt fun _ => Iff.rfl
  importName := fun _ => keepsAnswer_soundAt fun _ => Iff.rfl
  packageDir := by
    rintro _ _ ⟨rfl, rfl⟩
    exact keepsAnswer_soundAt fun _ => forall_prop_of_true rfl
  packageName := by
    rintro _ _ ⟨rfl, rfl⟩
    exact keepsAnswer_soundAt fun _ => forall_prop_of_true rfl

/-- A question that is not about another package, nor about types. -/
def Question.Concerns (pkg : String) (dir : Path) : Question → Prop
  | .packageDir pkg' dir' | .packageName pkg' dir' => pkg' = pkg ∧ dir' = dir
  | .typeSpec _ _ _ => False
  | _ => True

variable {w : Workspace} {pkg : String} {dir : Path}

/-- One question keeps the memory right. -/
theorem SoundAt.ask (rooted : w.files.cwd.isAbsolute = true)
    (sound : SoundAt w.world pkg dir w.memory) {q : Question} (concerns : q.Concerns pkg dir) :
    SoundAt w.world pkg dir (w.ask q.query).2.memory := by
  have free := remembers_soundAt w.world pkg dir
  cases q with
  | modFile p => exact (yields_modFile free rooted p w.memory sound).2
  | importPath p => exact (yields_importPath free rooted p w.memory sound).2
  | importName p => exact (yields_importName free rooted p w.memory sound).2
  | packageDir pkg' dir' => exact (yields_packageImportDir free rooted concerns w.memory sound).2
  | packageName pkg' dir' => exact (yields_packageImportName free rooted concerns w.memory sound).2
  | typeSpec name dir' path => exact concerns.elim

/-- All questions of a history keep the memory right, and none changes the world. -/
theorem SoundAt.askAll (rooted : w.files.cwd.isAbsolute = true)
    (sound : SoundAt w.world pkg dir w.memory) {earlier : List Question}
    (concern : ∀ q ∈ earlier, q.Concerns pkg dir) :
    (afterAll w (earlier.map .ask)).world = w.world ∧
      SoundAt w.world pkg dir (afterAll w (earlier.map .ask)).memory := by
  induction earlier generalizing w with
  | nil => exact ⟨rfl, sound⟩
  | cons q earlier ih =>
    obtain ⟨now, later⟩ := List.forall_mem_cons.1 concern
    exact ih (w := (w.ask q.query).2) rooted (sound.ask rooted now) later

/-- After such questions a question is answered as it always is. -/
theorem SoundAt.answer {α : Type} (rooted : w.files.cwd.isAbsolute = true)
    (sound : SoundAt w.world pkg dir w.memory) {q : Query α} {a : α}
    (yields : Yields w.world (SoundAt w.world pkg dir) q (· = a)) {earlier : List Question}
    (concern : ∀ q ∈ earlier, q.Concerns pkg dir) :
    ((afterAll w (earlier.map .ask)).ask q).1 = a := by
  obtain ⟨world, still⟩ := sound.askAll rooted concern
  have answer := (yields _ still).1
  rwa [← world] at answer

/-- Import paths and places of packages agree. If a directory has an import path, then the package
there lies in the directory again, and if the directory holds a source file that can be read and is
no test, the package has the name of the directory: whatever modules there are above the directory
or beside it, whatever the toolchain says, and whatever was asked before about the package and about
other directories. -/
theorem importPath_locates (w : Workspace) (fresh : w.memory.caches = {})
    (rooted : w.files.cwd.isAbsolute = true) {dir : Path} (absolute : dir.isAbsolute = true)
    (there : w.files.isDir dir = true) {pkg : String}
    (known : (w.ask (importPath dir)).1 = some pkg) :
    (∃ home : Path, home.components = dir.components ∧
      ∀ earlier : List Question, (∀ q ∈ earlier, q.Concerns pkg dir) →
        ((afterAll w (earlier.map .ask)).ask (packageImportDir pkg dir)).1 = some home) ∧
    ((∃ file ∈ packageFiles w.files dir, ∃ unit, (w.ask (parseFile file)).1 = .ok unit) →
      ∃ name, ∀ earlier : List Question, (∀ q ∈ earlier, q.Concerns pkg dir) →
        ((afterAll w (earlier.map .ask)).ask (packageImportName pkg dir)).1 = some name ∧
        ((afterAll w (earlier.map .ask)).ask (importName dir)).1 = some name) := by
  have free := remembers_soundAt w.world pkg dir
  have sound : SoundAt w.world pkg dir w.memory := soundAt_of_empty _ _ _ fresh
  have plain : Plain.importPath w.files dir = some pkg :=
    (yields_importPath free rooted dir w.memory sound).1.symm.trans known
  constructor
  · obtain ⟨home, found, same⟩ := Plain.packageDir_of_importPath rooted absolute there plain
    refine ⟨home, same, fun earlier concern => ?_⟩
    rw [← found]
    exact sound.answer rooted (yields_packageImportDir free rooted ⟨rfl, rfl⟩) concern
  · rintro ⟨file, member, unit, read⟩
    obtain ⟨own, whole⟩ : ∃ own, Plain.unit? w.files file = some own := by
      rcases (yields_parseFile free.units file w.memory sound).1 with
        ⟨-, e, failed⟩ | ⟨own, -, whole, -⟩
      · exact absurd (read.symm.trans failed) (by simp)
      · exact ⟨own, whole⟩
    obtain ⟨name, ofPackage, ofDir⟩ :=
      Plain.packageName_of_importPath rooted absolute there plain member whole
    refine ⟨name, fun earlier concern => ⟨?_, ?_⟩⟩
    · rw [← ofPackage]
      exact sound.answer rooted (yields_packageImportName free rooted ⟨rfl, rfl⟩) concern
    · rw [← ofDir]
      exact sound.answer rooted (yields_importName free rooted dir) concern

/-- A directory with a mark in its name, in a module whose path is quoted, has a slash at its end
and a comment behind it, below and beside other modules, under a path with a dot in it. -/
theorem importPath_locates_nested :
    let files : FileTree := ⟨"/", .ofList [
      (["m"], .dir), (["m", "go.mod"], .file (Utf8.ofString "module outer\n")),
      (["m", "n"], .dir),
      (["m", "n", "go.mod"], .file (Utf8.ofString "// a\nmodule \"ex.org/n/\" // b\n")),
      (["m", "n", "p#q"], .dir),
      (["m", "n", "p#q", "x.go"], .file (Utf8.ofString "// x\npackage /* y */ q\n")),
      (["m", "n", "p#q", "a_test.go"], .file (Utf8.ofString "package q_test\n")),
      (["m", "n", "r"], .dir), (["m", "n", "r", "go.mod"], .file (Utf8.ofString "module r\n"))]⟩
    let w : Workspace := { world := ⟨files, ⟨fun _ _ => .ok "/m/n/r", fun _ _ => .ok "r"⟩⟩ }
    let dir : Path := "/m/./n/p#q"
    let pkg := "ex.org/n//p#q"
    let w' := afterAll w ([.importPath dir, .packageName pkg dir, .importName "/m"].map .ask)
    w.memory.caches = {} ∧ w.files.cwd.isAbsolute = true ∧ dir.isAbsolute = true ∧
      w.files.isDir dir = true ∧ (w.ask (importPath dir)).1 = some pkg ∧
      "/m/./n/p#q/x.go" ∈ packageFiles w.files dir ∧
      (∃ home : Path, home.components = dir.components ∧
        (w'.ask (packageImportDir pkg dir)).1 = some home) ∧
      ∃ name, (w'.ask (packageImportName pkg dir)).1 = some name ∧
        (w'.ask (importName dir)).1 = some name := by
  intro files w dir pkg w'
  have rooted : w.files.cwd.isAbsolute = true := by decide
  have absolute : dir.isAbsolute = true := by decide
  have there : w.files.isDir dir = true := by decide +kernel
  have known : (w.ask (importPath dir)).1 = some pkg := by decide +kernel
  have member : "/m/./n/p#q/x.go" ∈ packageFiles w.files dir := by decide +kernel
  have parses : (w.ask (parseFile "/m/./n/p#q/x.go")).1.toBool = true := by decide +kernel
  obtain ⟨unit, read⟩ : ∃ unit, (w.ask (parseFile "/m/./n/p#q/x.go")).1 = .ok unit := by
    cases answer : (w.ask (parseFile "/m/./n/p#q/x.go")).1 with
    | ok unit => exact ⟨unit, rfl⟩
    | error e =>
      rw [answer] at parses
      cases parses
  have concern : ∀ q ∈ [.importPath dir, .packageName pkg dir, .importName "/m"],
      Question.Concerns pkg dir q := by
    simp [Question.Concerns]
  obtain ⟨⟨home, same, found⟩, names⟩ := importPath_locates w rfl rooted absolute there known
  obtain ⟨name, agree⟩ := names ⟨_, member, unit, read⟩
  exact ⟨rfl, rooted, absolute, there, known, member, ⟨home, same, found _ concern⟩,
    name, agree _ concern⟩

end Resolve
end Marginalia
