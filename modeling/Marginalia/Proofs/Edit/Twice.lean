/-
Module: Marginalia.Proofs.Edit.Twice
Purpose: Which files the edits of a set write, and that applying the set again writes nothing new.
Main exports:
  FileEdit.failure?, FileEdit.Makes, EditSet.pending, EditSet.done, EditSet.Apart,
  EditSet.Rewritten, EditSet.apply_rewrites_once
-/
import Marginalia.Proofs.Edit.Apply
import Mathlib.Data.List.TakeWhile

namespace Marginalia

/-! ### One edit -/

namespace FileEdit

/-- Why an edit fails on a tree, if it does. -/
def failure? (e : FileEdit) (files : FileTree) : Option Error :=
  match e.apply files with
  | .ok _ => none
  | .error cause => some cause

/-- Whether an edit fails depends on the content of its file only. -/
theorem failure?_eq (e : FileEdit) (files : FileTree) :
    e.failure? files =
      match files.read e.unit.path with
      | .error cause => some (.patch e.unit.path (.unreadable cause))
      | .ok current =>
        match e.newContent current with
        | .error cause => some cause
        | .ok _ => none := by
  unfold failure? apply
  cases readable : files.read e.unit.path with
  | error cause => rfl
  | ok current =>
    cases made : e.newContent current with
    | error cause => simp [made]
    | ok content =>
      obtain ⟨after, written, -⟩ := FileTree.write_of_read readable content
      simp [made, written]

theorem failure?_congr {e : FileEdit} {files after : FileTree}
    (same : after.read e.unit.path = files.read e.unit.path) :
    e.failure? after = e.failure? files := by
  rw [failure?_eq, failure?_eq, same]

/-- The bytes with every change made are the text of a source file. -/
structure Makes (e : FileEdit) (source : List Char) : Prop where
  text : e.buffer = Utf8.encode source
  parses : (Go.Tree.parse? source).isSome

theorem Makes.unique {e : FileEdit} {source other : List Char} (made : e.Makes source)
    (made' : e.Makes other) : source = other :=
  Utf8.encode_injective (made.text.symm.trans made'.text)

/-- New content is made of the bytes that the edit was made for, if the changes fit, and is the
laid-out text of a source file. -/
theorem fits_of_newContent {e : FileEdit} {files : FileTree} {current content : Bytes}
    (readable : files.read e.unit.path = .ok current) (new : e.newContent current = .ok content) :
    e.Fits files ∧ ∃ source, e.Makes source ∧ content = laidOut source := by
  have fits : e.Fits files := by
    by_contra misfit
    obtain ⟨fault, refused⟩ := newContent_of_not_fits readable misfit
    rw [refused] at new
    cases new
  obtain rfl : current = e.staged := Except.ok.inj (readable.symm.trans fits.fresh)
  rw [newContent_of_fits fits] at new
  refine ⟨fits, ?_⟩
  rcases layOut_cases e.unit.path e.buffer with
    ⟨source, text, parses, laid⟩ | ⟨-, fault, refused⟩
  · exact ⟨source, ⟨text, parses⟩, Except.ok.inj (new.symm.trans laid)⟩
  · rw [refused] at new
    cases new

/-- An edit that does not fail fits, and puts the text that it makes, laid out, in the place of its
file. -/
theorem apply_of_failure?_eq_none {e : FileEdit} {files : FileTree}
    (succeeds : e.failure? files = none) :
    e.Fits files ∧ ∃ place source, files.locate e.unit.path = .ok place ∧
      files.at? place = some (.file e.staged) ∧ e.Makes source ∧
      e.apply files = .ok (files.put place (.file (laidOut source))) := by
  rw [failure?_eq] at succeeds
  cases readable : files.read e.unit.path with
  | error cause => simp [readable] at succeeds
  | ok current =>
    cases new : e.newContent current with
    | error cause => simp [readable, new] at succeeds
    | ok content =>
      obtain ⟨fits, source, makes, rfl⟩ := fits_of_newContent readable new
      obtain ⟨place, located, file⟩ := FileTree.read_eq_ok_iff.1 fits.fresh
      refine ⟨fits, place, source, located, file, makes, ?_⟩
      simp [apply, readable, new, FileTree.write_of_locate located file]

theorem apply_of_failure? {e : FileEdit} {files : FileTree} {cause : Error}
    (fails : e.failure? files = some cause) : e.apply files = .error cause := by
  unfold failure? at fails
  split at fails
  · cases fails
  · rename_i failed
    rw [failed, Option.some.inj fails]

end FileEdit

/-! ### Edits one after the other -/

namespace EditSet

/-- No two of some edits are for one file. -/
def Apart (files : FileTree) (es : List FileEdit) : Prop :=
  es.Pairwise fun a b => ∀ place, files.locate a.unit.path = .ok place →
    files.locate b.unit.path ≠ .ok place

/-- The edits before the first one that fails. -/
def done (files : FileTree) (es : List FileEdit) : List FileEdit :=
  es.takeWhile fun e => (e.failure? files).isNone

theorem mem_done {files : FileTree} {es : List FileEdit} {e : FileEdit}
    (member : e ∈ done files es) : e ∈ es ∧ e.failure? files = none :=
  ⟨(List.takeWhile_prefix _).subset member, by simpa using List.mem_takeWhile_imp member⟩

theorem done_congr {files after : FileTree} {es : List FileEdit}
    (same : ∀ e ∈ es, e.failure? after = e.failure? files) : done after es = done files es := by
  induction es with
  | nil => rfl
  | cons e rest ih =>
    obtain ⟨first, others⟩ := List.forall_mem_cons.1 same
    have tail := ih others
    unfold done at tail ⊢
    rw [List.takeWhile_cons, List.takeWhile_cons, first, tail]

theorem findSome?_failure?_congr {files after : FileTree} {es : List FileEdit}
    (same : ∀ e ∈ es, e.failure? after = e.failure? files) :
    es.findSome? (·.failure? after) = es.findSome? (·.failure? files) := by
  induction es with
  | nil => rfl
  | cons e rest ih =>
    obtain ⟨first, others⟩ := List.forall_mem_cons.1 same
    rw [List.findSome?_cons, List.findSome?_cons, first, ih others]

/-- What a run of edits leaves when some of them were written: each of these fitted its file, and
the file holds the bytes that the edit was made for with every change made, as text in canonical
layout. Everything else is as it was. -/
structure Rewritten (files : FileTree) (written : List FileEdit) (after : FileTree) : Prop where
  locate : ∀ q, after.locate q = files.locate q
  fits : ∀ e ∈ written, e.Fits files
  made : ∀ e ∈ written, ∃ source, e.Makes source ∧
    ∀ q, files.locate q = files.locate e.unit.path → after.read q = .ok (FileEdit.laidOut source)
  kept : ∀ q, (∀ e ∈ written, files.locate q ≠ files.locate e.unit.path) →
    after.read q = files.read q

theorem failure?_put {files : FileTree} {place : List String} {old new : Bytes}
    (file : files.at? place = some (.file old)) {e : FileEdit}
    (elsewhere : files.locate e.unit.path ≠ .ok place) :
    e.failure? (files.put place (.file new)) = e.failure? files := by
  apply FileEdit.failure?_congr
  rw [FileTree.read_overwrite new file, if_neg elsewhere]

/-- The run of a list of edits for distinct files. -/
theorem applyAll_spec (es : List FileEdit) (files : FileTree) (apart : Apart files es) :
    (applyAll es files).1 = es.findSome? (·.failure? files) ∧
      Rewritten files (done files es) (applyAll es files).2 := by
  induction es generalizing files with
  | nil => exact ⟨rfl, fun _ => rfl, by simp [done], by simp [done], fun _ _ => rfl⟩
  | cons e rest ih =>
    cases failure : e.failure? files with
    | some cause =>
      have failed := FileEdit.apply_of_failure? failure
      have undone : done files (e :: rest) = [] := by simp [done, failure]
      rw [applyAll, failed, undone]
      exact ⟨by simp [failure], fun _ => rfl, by simp, by simp, fun _ _ => rfl⟩
    | none =>
      obtain ⟨fits, place, source, located, file, makes, applied⟩ :=
        FileEdit.apply_of_failure?_eq_none failure
      generalize laid : FileEdit.laidOut source = content at applied
      obtain ⟨first, others⟩ := List.pairwise_cons.1 apart
      have elsewhere : ∀ r ∈ rest, files.locate r.unit.path ≠ .ok place :=
        fun r member => first r member place located
      -- the other edits neither move nor change their verdicts when this file is written
      have paths := FileTree.locate_overwrite content file
      have verdicts : ∀ r ∈ rest,
          r.failure? (files.put place (.file content)) = r.failure? files :=
        fun r member => failure?_put file (elsewhere r member)
      have remaining : done (files.put place (.file content)) rest = done files rest :=
        done_congr verdicts
      have outcome : rest.findSome? (·.failure? (files.put place (.file content))) =
          rest.findSome? (·.failure? files) :=
        findSome?_failure?_congr verdicts
      have stillApart : Apart (files.put place (.file content)) rest := by
        simpa only [Apart, paths] using others
      obtain ⟨answer, locate, -, made, kept⟩ := ih _ stillApart
      have all : done files (e :: rest) = e :: done files rest := by simp [done, failure]
      rw [remaining] at made kept
      rw [applyAll, applied, all]
      refine ⟨?_, fun q => (locate q).trans (paths q), ?_, ?_, ?_⟩
      · rw [answer, outcome]
        simp [failure]
      · exact fun r member => (FileEdit.apply_of_failure?_eq_none (mem_done (all ▸ member)).2).1
      · intro r member
        rcases List.mem_cons.1 member with rfl | member
        · refine ⟨source, makes, fun q same => ?_⟩
          rw [laid, kept q, FileTree.read_overwrite content file, if_pos (same.trans located)]
          intro r member
          rw [paths, paths, same, located]
          exact Ne.symm (elsewhere r (mem_done member).1)
        · simpa only [paths] using made r member
      · intro q apartFrom
        obtain ⟨apartFromFirst, apartFromRest⟩ := List.forall_mem_cons.1 apartFrom
        rw [kept q fun r member => by simpa only [paths] using apartFromRest r member,
          FileTree.read_overwrite content file, if_neg (located ▸ apartFromFirst)]

/-! ### Applying again -/

/-- An edit that succeeds on a tree in which its laid-out text already stands changes nothing. -/
theorem apply_of_makes {e : FileEdit} {files : FileTree} {source : List Char}
    (makes : e.Makes source) (stands : files.read e.unit.path = .ok (FileEdit.laidOut source))
    (succeeds : e.failure? files = none) : e.apply files = .ok files := by
  obtain ⟨-, place, other, located, file, makes', applied⟩ :=
    FileEdit.apply_of_failure?_eq_none succeeds
  obtain rfl := makes.unique makes'
  obtain ⟨place', located', file'⟩ := FileTree.read_eq_ok_iff.1 stands
  obtain rfl : place = place' := Except.ok.inj (located.symm.trans located')
  rw [applied, FileTree.put_of_at? (FileTree.ne_nil_of_file file) file']

theorem applyAll_of_makes (written rest : List FileEdit) (files : FileTree)
    (made : ∀ e ∈ written, ∃ source, e.Makes source ∧
      files.read e.unit.path = .ok (FileEdit.laidOut source))
    (stops : ∀ e ∈ rest.head?, e.failure? files ≠ none) :
    (applyAll (written ++ rest) files).2 = files := by
  induction written with
  | nil =>
    cases rest with
    | nil => rfl
    | cons e rest =>
      obtain ⟨cause, failure⟩ := Option.ne_none_iff_exists'.1 (stops e rfl)
      rw [List.nil_append, applyAll, FileEdit.apply_of_failure? failure]
  | cons e written ih =>
    obtain ⟨⟨source, makes, stands⟩, others⟩ := List.forall_mem_cons.1 made
    cases failure : e.failure? files with
    | some cause => rw [List.cons_append, applyAll, FileEdit.apply_of_failure? failure]
    | none =>
      rw [List.cons_append, applyAll, apply_of_makes makes stands failure]
      exact ih others

/-- Edits that were applied up to the first that fails leave nothing to do. -/
theorem applyAll_applyAll (es : List FileEdit) (files : FileTree) (apart : Apart files es) :
    (applyAll es (applyAll es files).2).2 = (applyAll es files).2 := by
  obtain ⟨-, locate, fits, made, kept⟩ := applyAll_spec es files apart
  have split : done files es ++ es.dropWhile (fun e => (e.failure? files).isNone) = es :=
    List.takeWhile_append_dropWhile
  have again := applyAll_of_makes (done files es)
    (es.dropWhile fun e => (e.failure? files).isNone) (applyAll es files).2 ?_ ?_
  · rwa [split] at again
  · intro e member
    obtain ⟨source, makes, reads⟩ := made e member
    exact ⟨source, makes, reads _ rfl⟩
  · intro e first
    have fails := List.head?_dropWhile_not (fun e => (e.failure? files).isNone) es
    rw [first] at fails
    -- the file of the edit that failed is none of those written before it
    have same : (applyAll es files).2.read e.unit.path = files.read e.unit.path := by
      apply kept
      intro r member
      have parted : Apart files (done files es ++ es.dropWhile _) := split ▸ apart
      have distinct := (List.pairwise_append.1 parted).2.2 r member e (List.mem_of_mem_head? first)
      obtain ⟨place, located, -⟩ := FileTree.read_eq_ok_iff.1 (fits r member).fresh
      rw [located]
      exact distinct place located
    rw [FileEdit.failure?_congr same, ← Option.isSome_iff_ne_none]
    simpa using fails

/-! ### Sets of edits -/

/-- The edits of a set that change something, in the order of their paths. -/
def pending (edits : EditSet) : List FileEdit :=
  (edits.entries.map (·.2)).filter fun e => !e.isEmpty

theorem apply_eq (edits : EditSet) (files : FileTree) :
    edits.apply files = applyAll edits.pending files := rfl

theorem apart_pending {edits : EditSet} {files : FileTree}
    (apart : Apart files (edits.entries.map (·.2))) : Apart files edits.pending :=
  apart.filter _

/-- A set of edits for distinct files is applied once. The files of the edits that change something
and precede, in the order of their paths, the first that fails get their bytes with every change
made, laid out, and every other path reads as before; the outcome is that first failure, if there
is one. A second run, whatever its own outcome and that of the first, leaves the tree as it is. -/
theorem apply_rewrites_once (edits : EditSet) (files : FileTree)
    (apart : Apart files (edits.entries.map (·.2))) :
    (edits.apply files).1 = edits.pending.findSome? (·.failure? files) ∧
    Rewritten files (done files edits.pending) (edits.apply files).2 ∧
    (edits.apply (edits.apply files).2).2 = (edits.apply files).2 := by
  rw [apply_eq, apply_eq]
  obtain ⟨answer, rewritten⟩ := applyAll_spec edits.pending files (apart_pending apart)
  exact ⟨answer, rewritten, applyAll_applyAll edits.pending files (apart_pending apart)⟩

/-- Of two edits the first is written, and the second fails since its file has changed. -/
theorem apply_rewrites_once_stale :
    let unit (p : Path) : Go.SourceUnit := { (default : Go.SourceUnit) with
      path := p, source := "package a\n\n\n\nvar x int" }
    let edit (p : Path) : FileEdit :=
      (FileEdit.ofUnit (unit p)).replace ⟨8, 9⟩ (Utf8.ofString "b")
    let edits : EditSet :=
      Dict.ofList [(["/", "a.go"], edit "/a.go"), (["/", "b.go"], edit "/b.go")]
    let files : FileTree := ⟨"/", Dict.ofList [
      (["a.go"], .file (Utf8.ofString "package a\n\n\n\nvar x int")), (["b.go"], .file [])]⟩
    edits.pending.map (fun e => (e.failure? files).isNone) = [true, false] ∧
    (edits.apply files).2.read "/a.go" = .ok (Utf8.ofString "package b\n\nvar x int\n") ∧
    (edits.apply files).2.read "/b.go" = .ok [] ∧
    (edits.apply files).1 = edits.pending.findSome? (·.failure? files) ∧
    Rewritten files (done files edits.pending) (edits.apply files).2 ∧
    (edits.apply (edits.apply files).2).2 = (edits.apply files).2 := by
  intro unit edit edits files
  have first : files.locate "/a.go" = .ok ["a.go"] := by decide +kernel
  have second : files.locate "/b.go" = .ok ["b.go"] := by decide +kernel
  have apart : Apart files (edits.entries.map (·.2)) := by
    change Apart files [edit "/a.go", edit "/b.go"]
    refine List.pairwise_pair.2 fun place located located' => ?_
    have same : ["a.go"] = ["b.go"] :=
      (Except.ok.inj (first.symm.trans located)).trans
        (Except.ok.inj (second.symm.trans located')).symm
    exact absurd same (by decide)
  exact ⟨by decide +kernel, by decide +kernel, by decide +kernel,
    apply_rewrites_once edits files apart⟩

end EditSet
end Marginalia
