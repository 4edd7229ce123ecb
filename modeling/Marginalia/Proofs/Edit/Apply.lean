/-
Module: Marginalia.Proofs.Edit.Apply
Purpose: Exactly when the edit of a file succeeds, what it then writes, and how it fails otherwise.
Main exports:
  FileEdit.changes, FileEdit.buffer, FileEdit.Fits, FileEdit.apply_outcome
-/
import Marginalia.Proofs.Edit.Splice
import Marginalia.Proofs.FileTree
import Marginalia.Proofs.Text.Utf8
import Marginalia.Workspace.State

namespace Marginalia.FileEdit

/-- The bytes that an edit was made for. -/
def staged (e : FileEdit) : Bytes :=
  Utf8.ofString e.unit.source

/-- The insertions that the added imports ask for. -/
def insertions (e : FileEdit) : List Edit.Replacement :=
  if e.added.isEmpty then [] else Edit.importInsertions e.unit e.added

/-- The replaced nodes and the inserted imports. -/
def changes (e : FileEdit) : List Edit.Replacement :=
  (e.nodes.entries.map fun (span, bytes) => ⟨span, bytes⟩) ++ e.insertions

/-- The bytes that the edit was made for, with every change made. -/
def buffer (e : FileEdit) : Bytes :=
  Edit.replaceAll e.replacements e.staged

/-- The new content of a file that holds some text. -/
def laidOut (source : List Char) : Bytes :=
  Utf8.encode (Layout.canonicalize (Layout.protectedSpans source) source)

/-- The file is as it was when the edit was made, and the changes lie in it without overlap. -/
structure Fits (e : FileEdit) (files : FileTree) : Prop where
  fresh : files.read e.unit.path = .ok e.staged
  inRange : ∀ r ∈ e.changes, r.InRange e.staged.length
  disjoint : e.changes.Pairwise fun a b => a.span.Disjoint b.span

theorem replacements_eq (e : FileEdit) : e.replacements = Edit.inOrder e.changes := rfl

/-- Bytes are laid out when they are the text of a source file, and else refused as they are. -/
theorem layOut_cases (p : Path) (buffer : Bytes) :
    (∃ source, buffer = Utf8.encode source ∧ (Go.Tree.parse? source).isSome ∧
      layOut p buffer = .ok (laidOut source)) ∨
    ((∀ source, buffer = Utf8.encode source → Go.Tree.parse? source = none) ∧
      ∃ fault, layOut p buffer = .error (.format p fault buffer)) := by
  unfold layOut
  cases decoded : Utf8.decode buffer with
  | error fault =>
    refine Or.inr ⟨?_, .notText, rfl⟩
    intro source written
    rw [written, Utf8.decode_encode] at decoded
    cases decoded
  | ok source =>
    have written := Utf8.decode_eq_ok_iff.1 decoded
    cases parsed : Go.Tree.parse? source with
    | none =>
      refine Or.inr ⟨?_, .grammar, by simp [parsed]⟩
      intro other same
      rw [Utf8.encode_injective (written.symm.trans same)] at parsed
      simp [parsed]
    | some tree => exact Or.inl ⟨source, written, by simp [parsed], by simp [parsed, laidOut]⟩

/-- With current content that is the staged one and changes that fit, the buffer is laid out. -/
theorem newContent_of_fits {e : FileEdit} {files : FileTree} (fits : e.Fits files) :
    e.newContent e.staged = layOut e.unit.path e.buffer := by
  have spliced := Edit.splice_inOrder_eq_ok_iff.2 ⟨fits.inRange, fits.disjoint, rfl⟩
  rw [← replacements_eq] at spliced
  have fresh : ¬e.staged ≠ Utf8.ofString e.unit.source := not_not.2 rfl
  rw [newContent, if_neg fresh, spliced]
  rfl

/-- Without either, the edit is refused. -/
theorem newContent_of_not_fits {e : FileEdit} {files : FileTree} {current : Bytes}
    (readable : files.read e.unit.path = .ok current) (misfit : ¬e.Fits files) :
    ∃ fault, e.newContent current = .error (.patch e.unit.path fault) := by
  unfold newContent
  split
  · exact ⟨_, rfl⟩
  · rename_i same
    have fresh : current = e.staged := not_not.1 same
    subst fresh
    cases spliced : Edit.splice e.staged e.replacements with
    | error fault => exact ⟨fault, rfl⟩
    | ok bytes =>
      obtain ⟨inRange, disjoint, -⟩ := Edit.splice_inOrder_eq_ok_iff.1 spliced
      exact absurd ⟨readable, inRange, disjoint⟩ misfit

/-- An edit that fits and makes a source file is written: all paths to its file read as the laid
out text, and all other paths as before. -/
theorem apply_of_fits {e : FileEdit} {files : FileTree} (fits : e.Fits files)
    {source : List Char} (text : e.buffer = Utf8.encode source)
    (parses : (Go.Tree.parse? source).isSome) :
    ∃ after, e.apply files = .ok after ∧ ∀ q, after.read q =
      if files.locate q = files.locate e.unit.path then .ok (laidOut source)
      else files.read q := by
  obtain ⟨after, written, reads⟩ := FileTree.write_of_read fits.fresh (laidOut source)
  refine ⟨after, ?_, reads⟩
  have content : e.newContent e.staged = .ok (laidOut source) := by
    rw [newContent_of_fits fits]
    rcases layOut_cases e.unit.path e.buffer with ⟨other, same, -, laid⟩ | ⟨refused, -⟩
    · rw [Utf8.encode_injective (text.symm.trans same), laid]
    · have unread := refused source text
      simp_all
  simp [apply, fits.fresh, content, written]

/-- An edit that fits and makes no source file is refused with the bytes that it made. -/
theorem apply_of_not_parses {e : FileEdit} {files : FileTree} (fits : e.Fits files)
    (refused : ∀ source, e.buffer = Utf8.encode source → Go.Tree.parse? source = none) :
    ∃ fault, e.apply files = .error (.format e.unit.path fault e.buffer) := by
  rcases layOut_cases e.unit.path e.buffer with ⟨source, text, parses, -⟩ | ⟨-, fault, laid⟩
  · have unread := refused source text
    simp_all
  · exact ⟨fault, by simp [apply, fits.fresh, newContent_of_fits fits, laid]⟩

/-- An edit that does not fit is refused as a patch. -/
theorem apply_of_not_fits {e : FileEdit} {files : FileTree} (misfit : ¬e.Fits files) :
    ∃ fault, e.apply files = .error (.patch e.unit.path fault) := by
  unfold apply
  cases readable : files.read e.unit.path with
  | error cause => exact ⟨_, rfl⟩
  | ok current =>
    obtain ⟨fault, refused⟩ := newContent_of_not_fits readable misfit
    exact ⟨fault, by simp [refused]⟩

theorem files_applyEdit_of_ok {e : FileEdit} {w : Workspace} {after : FileTree}
    (applied : e.apply w.files = .ok after) : (w.applyEdit e).2.files = after := by
  unfold Workspace.applyEdit
  rw [applied]
  rfl

theorem files_applyEdit_of_error {e : FileEdit} {w : Workspace} {cause : Error}
    (failed : e.apply w.files = .error cause) : (w.applyEdit e).2.files = w.files := by
  unfold Workspace.applyEdit
  rw [failed]

/-- Applying an edit succeeds exactly when the file still holds the staged bytes, the changed spans
lie in them and are disjoint, and the bytes with the changes made are the text of a source file.
The file then holds that text in canonical layout and all else reads as before. Otherwise nothing
changes, and the error is a patch error if the changes do not fit and else a format error with the
changed bytes. -/
theorem apply_outcome (e : FileEdit) (w : Workspace) :
    ((∃ after, e.apply w.files = .ok after) ↔
      e.Fits w.files ∧
        ∃ source, e.buffer = Utf8.encode source ∧ (Go.Tree.parse? source).isSome) ∧
    (∀ after, e.apply w.files = .ok after →
      (w.applyEdit e).2.files = after ∧
        ∃ source, e.buffer = Utf8.encode source ∧ ∀ q, after.read q =
          if w.files.locate q = w.files.locate e.unit.path then .ok (laidOut source)
          else w.files.read q) ∧
    (∀ cause, e.apply w.files = .error cause →
      (w.applyEdit e).2.files = w.files ∧
        ((¬e.Fits w.files ∧ ∃ fault, cause = .patch e.unit.path fault) ∨
          (e.Fits w.files ∧ ∃ fault, cause = .format e.unit.path fault e.buffer))) := by
  by_cases fits : e.Fits w.files
  · by_cases parses : ∃ source, e.buffer = Utf8.encode source ∧ (Go.Tree.parse? source).isSome
    · obtain ⟨source, text, parses⟩ := parses
      obtain ⟨after, applied, reads⟩ := apply_of_fits fits text parses
      refine ⟨⟨fun _ => ⟨fits, source, text, parses⟩, fun _ => ⟨after, applied⟩⟩, ?_, ?_⟩
      · intro other same
        obtain rfl : after = other := Except.ok.inj (applied.symm.trans same)
        exact ⟨files_applyEdit_of_ok applied, source, text, reads⟩
      · intro cause failed
        rw [applied] at failed
        cases failed
    · have refused : ∀ source, e.buffer = Utf8.encode source →
          Go.Tree.parse? source = none := by
        intro source text
        by_contra unread
        exact parses ⟨source, text, Option.isSome_iff_ne_none.2 unread⟩
      obtain ⟨fault, failed⟩ := apply_of_not_parses fits refused
      refine ⟨⟨?_, fun ok => absurd ok.2 parses⟩, ?_, ?_⟩
      · rintro ⟨after, applied⟩
        rw [failed] at applied
        cases applied
      · intro after applied
        rw [failed] at applied
        cases applied
      · intro cause same
        obtain rfl := Except.error.inj (failed.symm.trans same)
        exact ⟨files_applyEdit_of_error failed, Or.inr ⟨fits, fault, rfl⟩⟩
  · obtain ⟨fault, failed⟩ := apply_of_not_fits fits
    refine ⟨⟨?_, fun ok => absurd ok.1 fits⟩, ?_, ?_⟩
    · rintro ⟨after, applied⟩
      rw [failed] at applied
      cases applied
    · intro after applied
      rw [failed] at applied
      cases applied
    · intro cause same
      obtain rfl := Except.error.inj (failed.symm.trans same)
      exact ⟨files_applyEdit_of_error failed, Or.inl ⟨fits, fault, rfl⟩⟩

end Marginalia.FileEdit
