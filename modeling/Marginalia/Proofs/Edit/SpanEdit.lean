/-
Module: Marginalia.Proofs.Edit.SpanEdit
Purpose: Replacing spans that a source file records never fails for the spans.
Main exports:
  FileEdit.splice_of_recorded, FileEdit.apply_of_nests, FileEdit.recorded_spans_nest,
  FileEdit.apply_of_parsed
-/
import Marginalia.Proofs.Edit.Apply
import Marginalia.Proofs.Go.ImportOrder
import Marginalia.Proofs.Go.TreeOrder

namespace Marginalia.FileEdit

open Go (Everywhere Node Nests Span Tree)

/-- Without added imports the changes are those of the replaced spans. -/
theorem changes_of_added_eq_nil {e : FileEdit} (unadded : e.added = []) :
    e.changes = e.nodes.entries.map fun (span, bytes) => ⟨span, bytes⟩ := by
  rw [changes, insertions, unadded]
  exact List.append_nil _

/-- Replacements of spans that nest in the file can be spliced when none lies in another. -/
theorem splice_of_recorded {e : FileEdit} {spans : List Span}
    (nests : Nests 0 e.staged.length spans) (unadded : e.added = [])
    (recorded : ∀ s ∈ e.nodes.keys, s ∈ spans)
    (apart : ∀ a ∈ e.nodes.keys, ∀ b ∈ e.nodes.keys, a ≠ b → ¬a.Within b) :
    Edit.splice e.staged e.replacements = .ok e.buffer := by
  have key : ∀ {entry}, entry ∈ e.nodes.entries → entry.1 ∈ e.nodes.keys := List.mem_map_of_mem
  rw [replacements_eq, Edit.splice_inOrder_eq_ok_iff, changes_of_added_eq_nil unadded]
  refine ⟨?_, ?_, ?_⟩
  · intro r member
    obtain ⟨entry, listed, rfl⟩ := List.mem_map.1 member
    have inside := nests.inside entry.1 (recorded _ (key listed))
    exact ⟨inside.2.1, inside.2.2⟩
  · rw [List.pairwise_map]
    refine e.nodes.sorted.imp_of_mem fun {a b} first second less => ?_
    have differ : a.1 ≠ b.1 := by
      intro same
      simp [same, Std.ReflCmp.compare_self] at less
    rcases nests.nested a.1 (recorded _ (key first)) b.1 (recorded _ (key second)) with
      within | within | disjoint
    · exact absurd within (apart _ (key first) _ (key second) differ)
    · exact absurd within (apart _ (key second) _ (key first) differ.symm)
    · exact disjoint
  · rw [buffer, replacements_eq, changes_of_added_eq_nil unadded]

/-- An edit whose changes can be spliced is refused as a patch only if its file cannot be read or
has changed. -/
theorem fault_of_splice {e : FileEdit}
    (spliced : Edit.splice e.staged e.replacements = .ok e.buffer) {files : FileTree} {path : Path}
    {fault : PatchFault} (failed : e.apply files = .error (.patch path fault)) :
    fault = .stale ∨ ∃ cause, fault = .unreadable cause := by
  unfold apply at failed
  cases readable : files.read e.unit.path with
  | error cause =>
    simp only [readable, Except.error.injEq, Error.patch.injEq] at failed
    exact .inr ⟨cause, failed.2.symm⟩
  | ok current =>
    simp only [readable] at failed
    by_cases stale : current ≠ Utf8.ofString e.unit.source
    · have content : e.newContent current = .error (.patch e.unit.path .stale) := by
        rw [newContent, if_pos stale]
      rw [content] at failed
      cases failed
      exact .inl rfl
    · -- then the buffer is laid out, and that fails with a format error only
      have content : e.newContent current = layOut e.unit.path e.buffer := by
        have fresh : current = e.staged := not_not.1 stale
        rw [newContent, if_neg stale, fresh, spliced]
      rcases layOut_cases e.unit.path e.buffer with ⟨source, -, -, laid⟩ | ⟨-, format, laid⟩
      · rw [content, laid] at failed
        simp only at failed
        split at failed <;> cases failed
      · rw [content, laid] at failed
        cases failed

/-- In a file whose recorded spans nest, an edit that adds no imports and replaces recorded spans of
which none lies in another is not refused for them. -/
theorem apply_of_nests {e : FileEdit}
    (nests : Nests 0 (Utf8.size e.unit.source.toList) e.unit.spans) (unadded : e.added = [])
    (recorded : ∀ s ∈ e.nodes.keys, s ∈ e.unit.spans)
    (apart : ∀ a ∈ e.nodes.keys, ∀ b ∈ e.nodes.keys, a ≠ b → ¬a.Within b) :
    Edit.splice e.staged e.replacements = .ok e.buffer ∧
    ∀ files path fault, e.apply files = .error (.patch path fault) →
      fault = .stale ∨ ∃ cause, fault = .unreadable cause := by
  have length : e.staged.length = Utf8.size e.unit.source.toList := by
    rw [staged, Utf8.ofString, Utf8.length_encode]
  have spliced := splice_of_recorded (length ▸ nests) unadded recorded apart
  exact ⟨spliced, fun files path fault failed => fault_of_splice spliced failed⟩

/-- The spans that a source file records of a syntax tree lie in the file, and any two are nested or
disjoint. So an edit that adds no imports and replaces recorded spans of which none lies in another
is never refused because a span overlaps another one or lies outside the file. -/
theorem recorded_spans_nest {path : Path} {source : String} {text : List Char} {tree : Tree}
    {unit : Go.SourceUnit} (read : Tree.parse? text = some tree)
    (inside : tree.stop.offset ≤ Utf8.size source.toList)
    (built : Go.SourceUnit.ofTree path source tree = .ok unit) :
    (∀ s ∈ unit.spans, s.start ≤ s.stop ∧ s.stop ≤ Utf8.size source.toList) ∧
    (∀ a ∈ unit.spans, ∀ b ∈ unit.spans, a.Within b ∨ b.Within a ∨ a.Disjoint b) ∧
    ∀ e : FileEdit, e.unit = unit → e.added = [] → (∀ s ∈ e.nodes.keys, s ∈ unit.spans) →
      (∀ a ∈ e.nodes.keys, ∀ b ∈ e.nodes.keys, a ≠ b → ¬a.Within b) →
      (∃ buffer, Edit.splice (Utf8.ofString source) e.replacements = .ok buffer) ∧
      ∀ files fault, e.apply files = .error (.patch path fault) →
        fault = .stale ∨ ∃ cause, fault = .unreadable cause := by
  have sound := (Tree.parse?_sound read).1
  have same : unit.source = source := Go.SourceUnit.source_ofTree built
  have nests := (Go.SourceUnit.ofTree_nests sound built).mono le_rfl inside
  refine ⟨fun s member => (nests.inside s member).2, nests.nested, ?_⟩
  rintro e rfl unadded recorded apart
  rw [← same] at nests ⊢
  obtain ⟨spliced, faults⟩ := apply_of_nests nests unadded recorded apart
  exact ⟨⟨e.buffer, spliced⟩, fun files fault => faults files path fault⟩

/-- Every source file that is read takes such edits: its tree is ordered and ends within it. -/
theorem apply_of_parsed {path : Path} {source : String} {e : FileEdit}
    (read : Go.SourceUnit.parse path source = .ok e.unit) (unadded : e.added = [])
    (recorded : ∀ s ∈ e.nodes.keys, s ∈ e.unit.spans)
    (apart : ∀ a ∈ e.nodes.keys, ∀ b ∈ e.nodes.keys, a ≠ b → ¬a.Within b) :
    Edit.splice e.staged e.replacements = .ok e.buffer ∧
    ∀ files path fault, e.apply files = .error (.patch path fault) →
      fault = .stale ∨ ∃ cause, fault = .unreadable cause :=
  apply_of_nests (Go.SourceUnit.parse_nests read) unadded recorded apart

theorem added_ofUnit (unit : Go.SourceUnit) : (ofUnit unit).added = [] := by
  rw [List.eq_nil_iff_forall_not_mem]
  intro i member
  obtain ⟨known, unknown⟩ := Go.Imports.mem_addedSince.1 member
  exact unknown known

/-- An embedded pointer and the signature of a method in a nested interface are replaced. -/
theorem recorded_spans_nest_embedded :
    let source := "package a\n\ntype T struct \x7b\n\t*U // u\n\tF interface \x7b\n" ++
      "\t\tGet() int\n\t\x7d\n\x7d\n"
    ∃ tree unit, Tree.parse? source.toList = some tree ∧ Everywhere Node.Orderly tree ∧
      Go.SourceUnit.ofTree "a.go" source tree = .ok unit ∧
      (∀ a ∈ unit.spans, ∀ b ∈ unit.spans, a.Within b ∨ b.Within a ∨ a.Disjoint b) ∧
      ∃ buffer, Edit.splice (Utf8.ofString source)
        (((ofUnit unit).replace ⟨28, 30⟩ []).replace ⟨56, 62⟩ []).replacements = .ok buffer := by
  intro source
  have view : (Tree.parse? source.toList).map (fun tree =>
      (decide (Everywhere Node.Orderly tree), tree.stop.offset,
        (Go.SourceUnit.ofTree "a.go" source tree).toOption.map (·.spans))) =
      some (true, 68, some [⟨8, 9⟩, ⟨11, 67⟩, ⟨16, 67⟩, ⟨16, 17⟩, ⟨18, 67⟩, ⟨28, 30⟩, ⟨28, 30⟩,
        ⟨29, 30⟩, ⟨37, 65⟩, ⟨39, 65⟩, ⟨53, 62⟩, ⟨56, 62⟩]) := by
    decide +kernel
  obtain ⟨tree, read, view⟩ := Option.map_eq_some_iff.1 view
  simp only [Prod.mk.injEq, decide_eq_true_eq] at view
  obtain ⟨ordered, stop, view⟩ := view
  cases built : Go.SourceUnit.ofTree "a.go" source tree with
  | error _ =>
    rw [built] at view
    cases view
  | ok unit =>
    have spans : unit.spans = _ := Option.some.inj (built ▸ view)
    obtain ⟨-, nested, edits⟩ := recorded_spans_nest read (by rw [stop]; decide) built
    have keys : (((ofUnit unit).replace ⟨28, 30⟩ []).replace ⟨56, 62⟩ []).nodes.keys =
        [⟨28, 30⟩, ⟨56, 62⟩] := rfl
    refine ⟨tree, unit, read, ordered, built, nested,
      (edits (((ofUnit unit).replace ⟨28, 30⟩ []).replace ⟨56, 62⟩ []) rfl (added_ofUnit unit)
        ?_ ?_).1⟩
    · rw [keys, spans]
      decide
    · rw [keys]
      decide

end Marginalia.FileEdit
