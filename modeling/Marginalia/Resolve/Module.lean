/-
Module: Marginalia.Resolve.Module
Purpose: Import paths, package names and package directories.
Main exports:
  moduleName?, modFile, importPath, importName, packageImportDir, packageImportName, packageName,
  packageFiles, isStandardImportPath
-/
import Marginalia.Workspace.Query

namespace Marginalia.Resolve

open Go (defaultImportName)

/-! ### The module directive -/

/-- Whether a directive may end here: only blanks and perhaps a comment follow on the line. -/
def atDirectiveEnd (cs : List Char) : Bool :=
  let cs := match cs with
    | '"' :: rest => rest
    | _ => cs
  let blanks := cs.takeWhile Text.isBlank
  let rest := cs.dropWhile Text.isBlank
  blanks.contains '\n' || rest.isEmpty || (Text.after? ['/', '/'] rest).isSome

/-- The longest name of at most `n` characters after which a directive may end. -/
def longestName? (cs : List Char) : (n : Nat) → Option (List Char)
  | 0 => none
  | n + 1 => if atDirectiveEnd (cs.drop (n + 1)) then some (cs.take (n + 1)) else longestName? cs n

/-- The module path that a directive at the start of a text declares. -/
def directive? (cs : List Char) : Option (List Char) := do
  let rest ← Text.after? "module".toList (Text.trimStart cs)
  let name := Text.trimStart rest
  if name.length = rest.length then none
  let name := match name with
    | '"' :: inner => inner
    | _ => name
  match name with
  | c :: _ =>
    if c == '/' then none
    else longestName? name (name.takeWhile fun c => !Text.isBlank c && c != '"').length
  | [] => none

/-- The tails of a text from each of its lines on. -/
def lineTails : List Char → List (List Char)
  | cs => cs :: go cs
where
  go : List Char → List (List Char)
    | [] => []
    | '\n' :: rest => rest :: go rest
    | _ :: rest => go rest

/-- The module path that the text of a module file declares, at the first line with a directive. -/
def declaredModule? (text : String) : Option String :=
  ((lineTails text.toList).findSome? directive?).map String.ofList

/-! ### Packages -/

/-- The name of module files. -/
def modFileName : String := "go.mod"

/-- Paths of the standard library have no dot in their first element. -/
def isStandardImportPath (path : String) : Bool :=
  match Text.splitOn '/' path.toList with
  | first :: _ => !first.contains '.'
  | [] => true

/-- Whether a file name is that of a source file that is no test. -/
def isPackageFile (name : String) : Bool :=
  (Text.before? ".go".toList name.toList).isSome &&
    (Text.before? "_test.go".toList name.toList).isNone

/-- The source files directly in a directory that are no tests, in order. -/
def packageFiles (files : FileTree) (dir : Path) : List Path :=
  match files.children dir with
  | .error _ => []
  | .ok entries =>
    entries.filterMap fun (name, e) =>
      match e with
      | .file _ => if isPackageFile name then some (dir.join name) else none
      | .dir => none

/-- The directory that a path stands for: that of a source file, or the path itself. -/
def packageDirOf? (files : FileTree) (p : Path) : Option Path :=
  let p := files.absolute p
  if p.isGoFile && !files.isDir p then p.parent? else some p

/-! ### Queries -/

/-- The kept answer to a question, or else the computed one, which is kept. -/
def remember (name : StoreName) (key : String) (compute : Query (Option String)) :
    Query (Option String) := do
  match ((← get).caches.modules.store name).get? key with
  | some hit => return some hit
  | none =>
    let value ← compute
    let (answer, store) := ((← get).caches.modules.store name).keep key value
    modify fun m =>
      { m with caches := { m.caches with modules := m.caches.modules.setStore name store } }
    return answer

/-- The module file that governs a directory: the nearest one in it or above it. -/
def modFile (dir : Path) : Query (Option Path) := do
  let files := (← read).files
  let dir := files.absolute dir
  remember .modFile dir do
    return (dir.ancestors.map (·.join modFileName)).find? files.isFile

/-- The module path that a module file declares. -/
def moduleName? (files : FileTree) (p : Path) : Option String :=
  match files.readText p with
  | .ok text => declaredModule? text
  | .error _ => none

/-- The import path of a file or directory. One that does not exist is placed in the module of its
nearest existing parent. -/
def importPath (p : Path) : Query (Option String) := do
  let files := (← read).files
  match packageDirOf? files p with
  | none => return none
  | some dir =>
    remember .importPath dir do
      match dir.ancestors.find? files.pathExists with
      | none => return none
      | some present =>
        match ← modFile present with
        | none => return none
        | some mod =>
          return do
            let modDir ← mod.parent?
            let name ← moduleName? files mod
            let names ← dir.below? modDir
            return names.foldl (fun acc n => acc ++ "/" ++ n) name

/-- The package name of the first file that can be read. -/
def firstPackage : List Path → Query (Option String)
  | [] => return none
  | p :: rest => do
    match ← parseFile p with
    | .ok unit => if unit.package.isEmpty then firstPackage rest else return some unit.package
    | .error _ => firstPackage rest

/-- The name in the package clauses of a directory. -/
def packageClause (dir : Path) : Query (Option String) := do
  firstPackage (packageFiles (← read).files dir)

/-- The package name of a file or directory: from its package clauses, else from its import path,
else from the name of the directory. -/
def importName (p : Path) : Query (Option String) := do
  match packageDirOf? (← read).files p with
  | none => return none
  | some dir =>
    remember .importName dir do
      match ← packageClause dir with
      | some name => return some name
      | none =>
        match ← importPath dir with
        | some path => return some (defaultImportName path)
        | none => return dir.fileName?.map defaultImportName

/-- Where a package of a module would lie: in the module's directory if it has the module's own
path, else at the place below it that the rest of its path names. -/
def packageDirIn? (modDir : Path) (name pkg : String) : Option Path :=
  if pkg == name then some modDir
  else
    (Text.after? (name.toList ++ ['/']) pkg.toList).map fun rest =>
      (Text.splitOn '/' rest).foldl (fun q s => q.join (String.ofList s)) modDir

/-- The directory of a package that belongs to the module governing a directory. -/
def localPackageDir (pkg : String) (dir : Path) : Query (Option Path) := do
  let files := (← read).files
  match ← modFile dir with
  | none => return none
  | some mod =>
    return do
      let name ← moduleName? files mod
      let modDir ← mod.parent?
      let candidate ← packageDirIn? modDir name pkg
      if files.isDir candidate then some candidate else none

/-- The key of a question about a package as seen from a directory. -/
def packageKey (pkg : String) (dir : Path) : String := pkg ++ "#" ++ dir

/-- The directory of a package as seen from a directory. -/
def packageImportDir (pkg : String) (dir : Path) : Query (Option String) :=
  remember .packageDir (packageKey pkg dir) do
    match ← localPackageDir pkg dir with
    | some found => return some found
    | none => return (← askPackageDir pkg dir).toOption

/-- The name of a package as seen from a directory. -/
def packageImportName (pkg : String) (dir : Path) : Query (Option String) :=
  remember .packageName (packageKey pkg dir) do
    let found ← match ← packageImportDir pkg dir with
      | some d => packageClause d
      | none => pure none
    match found with
    | some name => return some name
    | none => return (← askPackageName pkg dir).toOption

/-- The name of a package where it can be read. Packages of the standard library are called as
their paths suggest and are not asked for. -/
def packageName (path : String) (dir : Path) : Query (Option String) := do
  if isStandardImportPath path then return none
  packageImportName path dir

end Marginalia.Resolve
