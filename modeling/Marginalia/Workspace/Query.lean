/-
Module: Marginalia.Workspace.Query
Purpose: Questions about a file tree whose answers are kept in caches.
Main exports:
  Toolchain, ToolCall, Caches, World, Memory, Query, parseBytes, parseFile
-/
import Marginalia.Annotated.Decl
import Marginalia.Cache.Snapshot
import Marginalia.Cache.Versioned
import Marginalia.Error

namespace Marginalia

open Go (SourceUnit)

/-! ### The toolchain -/

/-- Answers about packages outside the module of a directory: where a package lies and what it is
called, as seen from a directory, or the reason why there is no answer. -/
structure Toolchain where
  packageDir : (pkg : String) → (dir : Path) → Except String String
  packageName : (pkg : String) → (dir : Path) → Except String String

/-- The toolchain that never answers. -/
def Toolchain.offline : Toolchain where
  packageDir pkg _ := .error ("offline: cannot locate " ++ pkg)
  packageName pkg _ := .error ("offline: cannot name " ++ pkg)

/-- A question put to the toolchain. -/
inductive ToolCall where
  | dir (pkg : String) (dir : Path)
  | name (pkg : String) (dir : Path)
deriving Repr, DecidableEq

/-! ### Caches -/

/-- All that is kept between questions. Source files are kept by path, annotated declarations by
marker and path, both with the content that they were read from as version. -/
structure Caches where
  units : VersionStore (List String) Bytes SourceUnit := .empty
  decls : VersionStore (List String) Bytes (List AnnotatedDecl) := .empty
  modules : ModuleCache := {}
  unknown : Snapshot := ∅

namespace Caches

instance : Inhabited Caches := ⟨{}⟩

/-- The key of a source file. -/
def unitKey (p : Path) : List String := p.components

/-- The key of the annotated declarations of a file. -/
def declKey (marker : String) (p : Path) : List String := marker :: p.components

/-- Caches filled from a snapshot. -/
def ofSnapshot (s : Snapshot) : Caches :=
  let (modules, unknown) := ModuleCache.restore s
  { modules, unknown }

/-- The snapshot of the caches. -/
def toSnapshot (c : Caches) : Snapshot :=
  c.modules.capture c.unknown

/-- Caches filled from a file; a missing file leaves them empty. -/
def load (files : FileTree) (p : Path) : Except IoError Caches :=
  match Snapshot.read files p with
  | .ok snapshot => .ok (ofSnapshot snapshot)
  | .error e => .error e

/-- Write the caches to a file. -/
def flush (c : Caches) (files : FileTree) (p : Path) : Except IoError FileTree :=
  c.toSnapshot.write files p

end Caches

/-! ### Questions -/

/-- What questions are asked about. -/
structure World where
  files : FileTree
  toolchain : Toolchain

/-- What asking changes: the caches, and the record of the calls to the toolchain, latest first. -/
structure Memory where
  caches : Caches := {}
  calls : List ToolCall := []

instance : Inhabited Memory := ⟨{}⟩

/-- A question about a world, whose answer may come from memory and be put there. -/
abbrev Query := ReaderT World (StateM Memory)

/-- The content of a file. -/
def readFile (p : Path) : Query (Except IoError Bytes) := do
  return (← read).files.read p

/-- Read a source file from its content. -/
def sourceUnit (p : Path) (content : Bytes) : Except Error SourceUnit :=
  match Utf8.toString content with
  | .error fault => .error (.parse p (.encoding fault))
  | .ok source =>
    match SourceUnit.parse p source with
    | .ok unit => .ok unit
    | .error e => .error (.parse p e)

/-- The source file with some content, from the cache if it has it. -/
def parseBytes (p : Path) (content : Bytes) : Query (Except Error SourceUnit) := do
  let caches := (← get).caches
  let (loaded, units) :=
    caches.units.load (Caches.unitKey p) content fun _ => sourceUnit p content
  modify fun m => { m with caches := { m.caches with units } }
  return loaded.answer

/-- A source file, from the cache if it has not changed. -/
def parseFile (p : Path) : Query (Except Error SourceUnit) := do
  match ← readFile p with
  | .error e => return .error (.io e)
  | .ok content => parseBytes p content

/-- Ask the toolchain for a package's directory. -/
def askPackageDir (pkg : String) (dir : Path) : Query (Except String String) := do
  modify fun m => { m with calls := .dir pkg dir :: m.calls }
  return (← read).toolchain.packageDir pkg dir

/-- Ask the toolchain for a package's name. -/
def askPackageName (pkg : String) (dir : Path) : Query (Except String String) := do
  modify fun m => { m with calls := .name pkg dir :: m.calls }
  return (← read).toolchain.packageName pkg dir

end Marginalia
