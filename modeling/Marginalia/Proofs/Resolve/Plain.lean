/-
Module: Marginalia.Proofs.Resolve.Plain
Purpose: The resolver without memory, and what its answers depend on.
Main exports:
  Plain.modFile, Plain.importPath, Plain.importName, Plain.packageDir, Plain.packageName,
  Plain.lookup, Toolchain.Lawful, Plain.packageName_congr
-/
import Marginalia.Proofs.Resolve.Sources
import Marginalia.Resolve.Lookup

namespace Marginalia

open Go (SourceUnit TypeExpr defaultImportName)

/-- The toolchain is a function of its arguments, and paths with the same components are the same
argument. -/
structure Toolchain.Lawful (toolchain : Toolchain) : Prop where
  packageDir : ∀ pkg {p q : Path}, p.components = q.components →
    toolchain.packageDir pkg p = toolchain.packageDir pkg q
  packageName : ∀ pkg {p q : Path}, p.components = q.components →
    toolchain.packageName pkg p = toolchain.packageName pkg q

namespace Resolve.Plain

/-! ### Answers without memory -/

/-- An empty answer counts as none. -/
def kept (answer : Option String) : Option String :=
  answer.filter (!·.isEmpty)

/-- The source file at a path. -/
def unit? (files : FileTree) (p : Path) : Option SourceUnit :=
  (files.read p).toOption.bind fun content => (sourceUnit p content).toOption

/-- The source files of a package directory that can be read, in order. -/
def units (files : FileTree) (dir : Path) : List SourceUnit :=
  (packageFiles files dir).filterMap (unit? files)

/-- The nearest directory with a module file, from a directory upwards. -/
def modDir? (files : FileTree) (dir : Path) : Option Path :=
  (files.absolute dir).ancestors.find? fun x => files.isFile (x.join modFileName)

/-- The module that a directory with a module file declares. -/
def module? (files : FileTree) (x : Path) : Option String :=
  moduleName? files (x.join modFileName)

def modFile (files : FileTree) (dir : Path) : Option Path :=
  (modDir? files dir).map (·.join modFileName)

/-- The import path of a package directory. -/
def importPathOf (files : FileTree) (dir : Path) : Option String :=
  kept do
    let x ← modDir? files dir
    let modDir ← (x.join modFileName).parent?
    let name ← module? files x
    let names ← dir.below? modDir
    return names.foldl (fun acc n => acc ++ "/" ++ n) name

def importPath (files : FileTree) (p : Path) : Option String :=
  (packageDirOf? files p).bind (importPathOf files)

def packageClause (files : FileTree) (dir : Path) : Option String :=
  (units files dir).findSome? fun unit => kept (some unit.package)

/-- The package name of a package directory. -/
def importNameOf (files : FileTree) (dir : Path) : Option String :=
  kept ((packageClause files dir).or
    (((importPath files dir).map defaultImportName).or (dir.fileName?.map defaultImportName)))

def importName (files : FileTree) (p : Path) : Option String :=
  (packageDirOf? files p).bind (importNameOf files)

def localPackageDir (files : FileTree) (pkg : String) (dir : Path) : Option Path := do
  let x ← modDir? files dir
  let name ← module? files x
  let modDir ← (x.join modFileName).parent?
  let candidate ← packageDirIn? modDir name pkg
  if files.isDir candidate then some candidate else none

def packageDir (w : World) (pkg : String) (dir : Path) : Option String :=
  kept ((localPackageDir w.files pkg dir).or (w.toolchain.packageDir pkg dir).toOption)

def packageName (w : World) (pkg : String) (dir : Path) : Option String :=
  kept (((packageDir w pkg dir).bind (packageClause w.files)).or
    (w.toolchain.packageName pkg dir).toOption)

/-- The name of an imported package where it can be read. -/
def realName (w : World) (path : String) (dir : Path) : Option String :=
  if isStandardImportPath path then none else packageName w path dir

/-- The path of the import that a name refers to. -/
def imported (w : World) (unit : SourceUnit) (name : String) : Option String :=
  if name == "" || name == "_" || name == "." then none
  else (unit.imports.which name).or
    (((unit.imports.visible.filter (·.name.isNone)).find?
      fun i => realName w i.path unit.dir == some name).map (·.path))

def declaredObject (w : World) (name : String) (dir : Path) (path : String) :
    Option (Go.Object × SourceUnit) :=
  if path.isEmpty then none
  else (packageDir w path dir).bind fun pkgDir =>
    (units w.files pkgDir).findSome? fun unit => (unit.lookup name).map (·, unit)

def lookup (w : World) (dir : Path) : (n : Nat) → (name path : String) →
    Option (TypeExpr × SourceUnit)
  | 0, _, _ => none
  | n + 1, name, path =>
    match declaredObject w name dir path with
    | some (.type spec, unit) =>
      match spec.type.kind with
      | .qualified package inner => (imported w unit package).bind (lookup w dir n inner)
      | .ident inner => lookup w dir n inner path
      | _ => some (spec.type, unit)
    | _ => none

/-! ### Module files above a path that need not exist -/

theorem pathExists_of_modFile {files : FileTree} {x : Path} (rooted : x.isAbsolute = true)
    (file : files.isFile (x.join modFileName) = true) : files.pathExists x = true := by
  have filled : x ≠ "" := by
    rintro rfl
    cases rooted
  have below :
      (files.absolute (x.join modFileName)).components = x.components ++ [modFileName] := by
    rw [FileTree.absolute_of_isAbsolute, Path.components_join_name filled (by decide) (by decide)]
    rw [Path.isAbsolute_join filled (by decide), rooted]
  rw [FileTree.isFile_eq, Option.isSome_iff_exists] at file
  obtain ⟨content, read⟩ := file
  have read : files.read (x.join modFileName) = .ok content := by
    cases answer : files.read (x.join modFileName) <;> simp_all [Except.toOption]
  obtain ⟨place, led, -, -⟩ := FileTree.read_eq_ok_iff_place?.1 read
  unfold FileTree.place? at led
  split at led
  · cases led
  · rw [below, FileTree.follow_append] at led
    cases followed : files.follow [] x.components with
    | error e => simp [followed, Except.toOption] at led
    | ok reached =>
      rw [followed] at led
      have dir : files.at? reached = some .dir := by
        by_contra other
        simp [FileTree.follow_of_not_dir other] at led
      have named : files.lookup x = .ok .dir := by
        refine FileTree.lookup_eq_ok_iff.2 ⟨reached, ?_, dir, fun differ => absurd rfl differ⟩
        rw [FileTree.place?, if_neg (by simpa [String.isEmpty_iff] using filled),
          FileTree.absolute_of_isAbsolute rooted, followed]
        rfl
      simp [FileTree.pathExists, named]

/-- To look for the module from the nearest path that exists finds the same module. -/
theorem modDir?_of_present {files : FileTree} {dir present : Path} (rooted : dir.isAbsolute = true)
    (found : dir.ancestors.find? files.pathExists = some present) :
    modDir? files present = modDir? files dir := by
  obtain ⟨-, nearer, farther, split, absent⟩ := List.find?_eq_some_iff_append.1 found
  obtain ⟨own, rooted'⟩ := Path.ancestors_of_append rooted split
  rw [modDir?, modDir?, FileTree.absolute_of_isAbsolute rooted,
    FileTree.absolute_of_isAbsolute rooted', own, split, List.find?_append]
  have fileless : nearer.find? (fun x => files.isFile (x.join modFileName)) = none := by
    rw [List.find?_eq_none]
    intro x member file
    have ancestor : x ∈ dir.ancestors := by simp [split, member]
    have gone := absent x member
    simp [pathExists_of_modFile (Path.isAbsolute_of_mem_ancestors rooted ancestor) file] at gone
  rw [fileless]
  rfl

theorem modDir?_of_absent {files : FileTree} {dir : Path} (rooted : dir.isAbsolute = true)
    (absent : dir.ancestors.find? files.pathExists = none) : modDir? files dir = none := by
  rw [modDir?, FileTree.absolute_of_isAbsolute rooted, List.find?_eq_none]
  rw [List.find?_eq_none] at absent
  intro x member file
  exact absent x member
    (pathExists_of_modFile (Path.isAbsolute_of_mem_ancestors rooted member) file)

/-! ### Trees with the same sources give the same answers -/

theorem moduleName?_eq (t : FileTree) (p : Path) :
    moduleName? t p = (t.read p).toOption.bind fun bytes =>
      (Utf8.toString bytes).toOption.bind declaredModule? := by
  unfold moduleName? FileTree.readText
  cases t.read p with
  | error e => rfl
  | ok bytes => cases decoded : Utf8.toString bytes <;> simp [decoded, Except.toOption]

section SameTrees

variable {t t' : FileTree} (same : SameSources t t') (rooted : t.cwd.isAbsolute = true)

include same rooted

theorem read_modFile_congr {p q : Path} (spelled : p.components = q.components) :
    (t.read (p.join modFileName)).toOption = (t'.read (q.join modFileName)).toOption := by
  obtain ⟨written, init, components⟩ := join_modFileName p
  refine read_congr same rooted (Path.join_congr spelled _) ?_ ⟨init, _, components, by decide⟩
  rw [written, (join_modFileName q).1]

theorem isFile_modFile_congr {p q : Path} (spelled : p.components = q.components) :
    t.isFile (p.join modFileName) = t'.isFile (q.join modFileName) := by
  rw [FileTree.isFile_eq, FileTree.isFile_eq, read_modFile_congr same rooted spelled]

theorem module?_congr {p q : Path} (spelled : p.components = q.components) :
    module? t p = module? t' q := by
  rw [module?, module?, moduleName?_eq, moduleName?_eq, read_modFile_congr same rooted spelled]

theorem read_packageFile_congr {p q : Path} (spelled : p.components = q.components) {name : String}
    (source : isPackageFile name = true) :
    (t.read (p.join name)).toOption = (t'.read (q.join name)).toOption := by
  obtain ⟨written, ends⟩ := join_packageFile p source
  refine read_congr same rooted (Path.join_congr spelled _) ?_ ends
  rw [written, (join_packageFile q source).1]

theorem modDir?_eq (dir : Path) : modDir? t dir = modDir? t' dir := by
  unfold modDir?
  rw [same.absolute]
  congr 1
  funext x
  exact isFile_modFile_congr same rooted rfl

theorem module?_eq : module? t = module? t' := by
  funext x
  exact module?_congr same rooted rfl

theorem isDir_eq (p : Path) : t.isDir p = t'.isDir p :=
  isDir_congr same rooted rfl

theorem packageDirOf?_eq (p : Path) : packageDirOf? t p = packageDirOf? t' p := by
  simp only [packageDirOf?, same.absolute, isDir_eq same rooted]

theorem units_eq (dir : Path) : units t dir = units t' dir := by
  unfold units
  rw [← packageFiles_congr same rooted, packageFiles_eq]
  refine List.filterMap_congr fun p member => ?_
  obtain ⟨name, listed, rfl⟩ := List.mem_map.1 member
  unfold unit?
  rw [read_packageFile_congr same rooted rfl (isPackageFile_of_mem listed)]

theorem modFile_eq (dir : Path) : modFile t dir = modFile t' dir := by
  rw [modFile, modFile, modDir?_eq same rooted]

theorem importPathOf_eq : importPathOf t = importPathOf t' := by
  funext dir
  simp only [importPathOf, modDir?_eq same rooted, module?_eq same rooted]

theorem importPath_eq (p : Path) : importPath t p = importPath t' p := by
  rw [importPath, importPath, packageDirOf?_eq same rooted, importPathOf_eq same rooted]

theorem packageClause_eq (dir : Path) : packageClause t dir = packageClause t' dir := by
  rw [packageClause, packageClause, units_eq same rooted]

theorem importNameOf_eq : importNameOf t = importNameOf t' := by
  funext dir
  rw [importNameOf, importNameOf, packageClause_eq same rooted, importPath_eq same rooted]

theorem importName_eq (p : Path) : importName t p = importName t' p := by
  rw [importName, importName, packageDirOf?_eq same rooted, importNameOf_eq same rooted]

theorem localPackageDir_eq (pkg : String) (dir : Path) :
    localPackageDir t pkg dir = localPackageDir t' pkg dir := by
  simp only [localPackageDir, modDir?_eq same rooted, module?_eq same rooted, isDir_eq same rooted]

theorem packageDir_eq (toolchain : Toolchain) (pkg : String) (dir : Path) :
    packageDir ⟨t, toolchain⟩ pkg dir = packageDir ⟨t', toolchain⟩ pkg dir := by
  rw [packageDir, packageDir, localPackageDir_eq same rooted]

theorem packageName_eq (toolchain : Toolchain) (pkg : String) (dir : Path) :
    packageName ⟨t, toolchain⟩ pkg dir = packageName ⟨t', toolchain⟩ pkg dir := by
  have clauses : packageClause t = packageClause t' := funext (packageClause_eq same rooted)
  rw [packageName, packageName, packageDir_eq same rooted, clauses]

theorem lookup_eq (toolchain : Toolchain) (dir : Path) (n : Nat) (name path : String) :
    lookup ⟨t, toolchain⟩ dir n name path = lookup ⟨t', toolchain⟩ dir n name path := by
  have objects (name path : String) :
      declaredObject ⟨t, toolchain⟩ name dir path =
        declaredObject ⟨t', toolchain⟩ name dir path := by
    simp only [declaredObject, packageDir_eq same rooted, units_eq same rooted]
  have imports : imported ⟨t, toolchain⟩ = imported ⟨t', toolchain⟩ := by
    funext unit name
    simp only [imported, realName, packageName_eq same rooted]
  induction n generalizing name path with
  | zero => rfl
  | succ n ih =>
    have below (inner : String) :
        lookup ⟨t, toolchain⟩ dir n inner = lookup ⟨t', toolchain⟩ dir n inner :=
      funext (ih inner)
    simp only [lookup, objects, imports, below]

end SameTrees

/-! ### Spellings of one directory give the same names -/

/-- Source files that differ in the spelling of their paths at most. -/
def Respelled (unit unit' : SourceUnit) : Prop :=
  unit.path.components = unit'.path.components ∧ { unit with path := unit'.path } = unit'

theorem sourceUnit_respell (p q : Path) (content : Bytes) :
    (sourceUnit q content).toOption =
      (sourceUnit p content).toOption.map fun unit => { unit with path := q } := by
  unfold sourceUnit
  cases Utf8.toString content with
  | error fault => rfl
  | ok source =>
    simp only [SourceUnit.parse]
    cases Go.Tree.parse? source.toList with
    | none => rfl
    | some tree =>
      simp only [SourceUnit.ofTree]
      cases (tree.children.filter (·.kind == .packageClause)).getLast?.bind
          (·.childOfKind? .packageIdentifier) with
      | none => rfl
      | some id => rfl

theorem find?_map_congr {α β : Type} {f : α → β} {test test' : α → Bool}
    (congr : ∀ a b, f a = f b → test a = test' b) {l l' : List α} (same : l.map f = l'.map f) :
    (l.find? test).map f = (l'.find? test').map f := by
  induction l generalizing l' with
  | nil =>
    rw [List.map_nil, eq_comm, List.map_eq_nil_iff] at same
    rw [same]
    rfl
  | cons a l ih =>
    obtain ⟨b, l', rfl⟩ := List.exists_cons_of_ne_nil (show l' ≠ [] by rintro rfl; cases same)
    obtain ⟨first, rest⟩ := List.cons.inj same
    rw [List.find?_cons, List.find?_cons, congr a b first]
    cases test' b with
    | true => exact congrArg some first
    | false => exact ih rest

theorem bind_congr_of_map {α β γ : Type} {f : α → γ} {a a' : Option α} {g g' : α → Option β}
    (same : a.map f = a'.map f) (congr : ∀ x y, f x = f y → g x = g' y) :
    a.bind g = a'.bind g' := by
  cases a with
  | none =>
    rw [Option.map_none, eq_comm, Option.map_eq_none_iff] at same
    rw [same]
    rfl
  | some x =>
    rw [Option.map_some, eq_comm, Option.map_eq_some_iff] at same
    obtain ⟨y, rfl, same⟩ := same
    exact congr x y same.symm

theorem map_packageDirIn?_congr {p q : Path} (spelled : p.components = q.components)
    (name pkg : String) : (packageDirIn? p name pkg).map Path.components =
      (packageDirIn? q name pkg).map Path.components := by
  unfold packageDirIn?
  split
  · exact congrArg some spelled
  · rw [Option.map_map, Option.map_map]
    congr 1
    funext rest
    simp only [Function.comp_apply]
    generalize Text.splitOn '/' rest = pieces
    induction pieces generalizing p q with
    | nil => exact spelled
    | cons piece pieces ih => exact ih (Path.join_congr spelled _)

section Spellings

variable {t t' : FileTree} (same : SameSources t t') (rooted : t.cwd.isAbsolute = true)
  {p q : Path} (spelled : p.components = q.components)

include same rooted spelled

theorem unit?_respell {name : String} (source : isPackageFile name = true) :
    unit? t' (q.join name) =
      (unit? t (p.join name)).map fun unit => { unit with path := q.join name } := by
  unfold unit?
  rw [← read_packageFile_congr same rooted spelled source, Option.map_bind]
  congr 1
  funext content
  exact sourceUnit_respell _ _ _

theorem packageClause_congr : packageClause t p = packageClause t' q := by
  unfold packageClause units
  rw [packageFiles_eq, packageFiles_eq, ← packageNames_congr same rooted spelled]
  have sources : ∀ name ∈ packageNames t p, isPackageFile name = true :=
    fun name => isPackageFile_of_mem
  generalize packageNames t p = names at sources
  induction names with
  | nil => rfl
  | cons name names ih =>
    obtain ⟨source, others⟩ := List.forall_mem_cons.1 sources
    have respell := unit?_respell same rooted spelled source
    rw [List.map_cons, List.map_cons, List.filterMap_cons, List.filterMap_cons, respell]
    cases unit? t (p.join name) with
    | none => exact ih others
    | some unit =>
      simp only [Option.map_some, List.findSome?_cons]
      rw [ih others]

theorem modDir?_congr : (modDir? t p).map Path.components = (modDir? t' q).map Path.components := by
  unfold modDir?
  rw [← same.absolute]
  refine find?_map_congr (fun x y spelled => isFile_modFile_congr same rooted spelled) ?_
  exact Path.ancestors_congr (FileTree.isAbsolute_absolute rooted p)
    (FileTree.absolute_congr rooted spelled)

theorem localPackageDir_congr (pkg : String) :
    (localPackageDir t pkg p).map Path.components =
      (localPackageDir t' pkg q).map Path.components := by
  have modDirs := modDir?_congr same rooted spelled
  unfold localPackageDir
  simp only [Option.bind_eq_bind, Option.map_bind, Function.comp_def]
  refine bind_congr_of_map modDirs fun x y modDir => ?_
  rw [module?_congr same rooted modDir]
  congr 1
  funext name
  have parents : (x.join modFileName).parent?.map Path.components =
      (y.join modFileName).parent?.map Path.components := by
    rw [Path.map_components_parent?, Path.map_components_parent?, Path.join_congr modDir]
  refine bind_congr_of_map parents fun r r' modDir => ?_
  refine bind_congr_of_map (map_packageDirIn?_congr modDir name pkg) fun c c' candidate => ?_
  rw [isDir_congr same rooted candidate]
  split
  · exact congrArg some candidate
  · rfl

end Spellings

theorem map_kept_congr {a b : Option String}
    (spelled : a.map Path.components = b.map Path.components) :
    (kept a).map Path.components = (kept b).map Path.components := by
  have within (c : Option String) :
      (kept c).map Path.components = c.bind fun x => (kept (some x)).map Path.components := by
    cases c <;> rfl
  rw [within a, within b]
  refine bind_congr_of_map spelled fun x y spelled => ?_
  have empty : x.isEmpty = y.isEmpty := by
    rw [Bool.eq_iff_iff, String.isEmpty_iff, String.isEmpty_iff, ← Path.components_eq_nil_iff,
      ← Path.components_eq_nil_iff, spelled]
  cases blank : y.isEmpty <;> simp [kept, Option.filter, empty, blank, spelled]

/-- The name of a package does not depend on how the directory that asks for it is spelled. -/
theorem packageName_congr {w : World} (rooted : w.files.cwd.isAbsolute = true)
    (lawful : w.toolchain.Lawful) (pkg : String) {p q : Path}
    (spelled : p.components = q.components) : packageName w pkg p = packageName w pkg q := by
  have dirs :
      (packageDir w pkg p).map Path.components = (packageDir w pkg q).map Path.components := by
    apply map_kept_congr
    rw [Option.map_or, Option.map_or, lawful.packageDir pkg spelled,
      localPackageDir_congr (.refl w.files) rooted spelled]
  unfold packageName
  rw [lawful.packageName pkg spelled, bind_congr_of_map dirs]
  exact fun x y => packageClause_congr (.refl w.files) rooted

end Resolve.Plain
end Marginalia
