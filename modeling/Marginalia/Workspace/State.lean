/-
Module: Marginalia.Workspace.State
Purpose: Files, caches and pending edits together, and the operations that change them.
Main exports:
  Workspace, Workspace.ask, Workspace.stage, Workspace.edit, Workspace.applyEdits,
  Workspace.reload, Workspace.flush
-/
import Marginalia.Config
import Marginalia.Edit.FileEdit
import Marginalia.Workspace.Scan

namespace Marginalia

/-- A file tree with all that is known about it and all that is to be changed in it. -/
structure Workspace where
  config : Config := {}
  world : World
  memory : Memory := {}
  edits : EditSet := ∅

namespace Workspace

/-- The files of the workspace. -/
def files (w : Workspace) : FileTree := w.world.files

/-- Exchange the files; what is remembered of the old ones stays. -/
def withFiles (w : Workspace) (files : FileTree) : Workspace :=
  { w with world := { w.world with files } }

/-- Ask a question and remember what it taught. -/
def ask {α : Type} (w : Workspace) (q : Query α) : α × Workspace :=
  let (a, memory) := (q.run w.world).run w.memory
  (a, { w with memory })

/-- The annotated declarations of a file or directory. -/
def scan (w : Workspace) (p : Path) (marker : String) :
    Except Error (List AnnotatedDecl) × Workspace :=
  w.ask (Marginalia.scan w.config.skipDirs p marker)

/-! ### Caches -/

/-- Forget all and take the caches of a file in its place; edits are dropped too. -/
def reload (w : Workspace) (p : Path) : Except Error Workspace :=
  match Caches.load w.files p with
  | .error e => .error (.io e)
  | .ok caches => .ok { w with memory := { w.memory with caches }, edits := ∅ }

/-- Write the caches to a file. -/
def flush (w : Workspace) (p : Path) : Except Error Workspace :=
  match w.memory.caches.flush w.files p with
  | .error e => .error (.io e)
  | .ok files => .ok (w.withFiles files)

/-! ### Edits -/

/-- The key of a file's edit. -/
def editKey (w : Workspace) (p : Path) : List String :=
  (w.files.absolute p).components

/-- The pending edit of a file. -/
def edit? (w : Workspace) (p : Path) : Option FileEdit :=
  w.edits.get? (w.editKey p)

/-- The pending edit of a file, begun on its current content if there is none yet. -/
def stage (w : Workspace) (p : Path) : Except Error FileEdit × Workspace :=
  match w.edit? p with
  | some e => (.ok e, w)
  | none =>
    match w.ask (parseFile (w.files.absolute p)) with
    | (.error e, w) => (.error e, w)
    | (.ok unit, w) =>
      let e := FileEdit.ofUnit unit
      (.ok e, { w with edits := w.edits.insert (w.editKey p) e })

/-- Change the pending edit of a file, begun if need be; the result is what the change tells. -/
def edit {α : Type} (w : Workspace) (p : Path) (change : FileEdit → α × FileEdit) :
    Except Error α × Workspace :=
  match w.stage p with
  | (.error e, w) => (.error e, w)
  | (.ok e, w) =>
    let (a, e) := change e
    (.ok a, { w with edits := w.edits.insert (w.editKey p) e })

/-- Apply all pending edits, up to the first that fails. They stay pending. -/
def applyEdits (w : Workspace) : Option Error × Workspace :=
  let (failure, files) := w.edits.apply w.files
  (failure, w.withFiles files)

/-- Apply one edit. -/
def applyEdit (w : Workspace) (e : FileEdit) : Option Error × Workspace :=
  match e.apply w.files with
  | .ok files => (none, w.withFiles files)
  | .error cause => (some cause, w)

end Workspace
end Marginalia
