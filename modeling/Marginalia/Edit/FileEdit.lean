/-
Module: Marginalia.Edit.FileEdit
Purpose: The pending changes of one file, and of several.
Main exports:
  FileEdit, FileEdit.newContent, FileEdit.apply, EditSet, EditSet.apply
-/
import Marginalia.Edit.Insertion
import Marginalia.Layout

namespace Marginalia

open Go (Imports SourceUnit Span)

/-- The pending changes of one file: the imports that it shall have and the spans to replace. Only
imports that are added are written. -/
structure FileEdit where
  unit : SourceUnit
  imports : Imports
  nodes : Dict Span Bytes

namespace FileEdit

/-- No changes to a file. -/
def ofUnit (unit : SourceUnit) : FileEdit := ⟨unit, unit.imports, ∅⟩

/-- Replace a span; of two replacements of one span the later counts. -/
def replace (e : FileEdit) (span : Span) (bytes : Bytes) : FileEdit :=
  { e with nodes := e.nodes.insert span bytes }

/-- Add an import; the result has the name to refer to it by. -/
def addImport (e : FileEdit) (path : String) : String × FileEdit :=
  let (name, imports) := e.imports.add path
  (name, { e with imports })

/-- The imports that are added. -/
def added (e : FileEdit) : Imports :=
  e.imports.addedSince e.unit.imports

/-- Whether there is nothing to change. -/
def isEmpty (e : FileEdit) : Bool :=
  e.nodes.isEmpty && e.added.isEmpty

/-- The replacements of spans and the insertions of imports, in order. -/
def replacements (e : FileEdit) : List Edit.Replacement :=
  let nodes := e.nodes.entries.map fun (span, bytes) => ⟨span, bytes⟩
  let insertions := if e.added.isEmpty then [] else Edit.importInsertions e.unit e.added
  Edit.inOrder (nodes ++ insertions)

/-- Lay out edited bytes, which must be the text of a source file. -/
def layOut (p : Path) (buffer : Bytes) : Except Error Bytes :=
  match Utf8.decode buffer with
  | .error _ => .error (.format p .notText buffer)
  | .ok source =>
    match Go.Tree.parse? source with
    | none => .error (.format p .grammar buffer)
    | some _ =>
      .ok (Utf8.encode (Layout.canonicalize (Layout.protectedSpans source) source))

/-- The new content of a file with some current content. The content must be the one that the
edit was made for. -/
def newContent (e : FileEdit) (current : Bytes) : Except Error Bytes :=
  if current ≠ Utf8.ofString e.unit.source then .error (.patch e.unit.path .stale)
  else
    match Edit.splice current e.replacements with
    | .error fault => .error (.patch e.unit.path fault)
    | .ok buffer => layOut e.unit.path buffer

/-- Change the file in a tree: all changes are made, or none. -/
def apply (e : FileEdit) (files : FileTree) : Except Error FileTree :=
  match files.read e.unit.path with
  | .error cause => .error (.patch e.unit.path (.unreadable cause))
  | .ok current =>
    match e.newContent current with
    | .error cause => .error cause
    | .ok content =>
      match files.write e.unit.path content with
      | .ok files => .ok files
      | .error cause => .error (.io cause)

end FileEdit

/-- The pending changes of several files, by their paths. -/
abbrev EditSet := Dict (List String) FileEdit

namespace EditSet

/-- Apply edits one after the other, up to the first that fails; the tree after it. -/
def applyAll : List FileEdit → FileTree → Option Error × FileTree
  | [], files => (none, files)
  | e :: rest, files =>
    match e.apply files with
    | .ok files => applyAll rest files
    | .error cause => (some cause, files)

/-- Apply all edits that change something, in the order of their paths, up to the first that
fails. -/
def apply (edits : EditSet) (files : FileTree) : Option Error × FileTree :=
  applyAll ((edits.entries.map (·.2)).filter fun e => !e.isEmpty) files

end EditSet
end Marginalia
