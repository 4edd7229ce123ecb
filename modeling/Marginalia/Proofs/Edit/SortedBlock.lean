/-
Module: Marginalia.Proofs.Edit.SortedBlock
Purpose: Imports that are added to a sorted import block are put in order.
Main exports:
  placeAll, Slot.Serves, Stage, Stage.step, Stage.exists_merged, SortedIn, StaysSorted,
  SortedIn.staysSorted
-/
import Marginalia.Edit.FileEdit
import Marginalia.Proofs.Dict
import Marginalia.Proofs.Edit.Block
import Marginalia.Proofs.Edit.Splice
import Marginalia.Proofs.Go.ImportOrder

namespace Marginalia.Edit

open Go (Import ImportDecl Imports SourceUnit Span)

/-! ### Texts by offset -/

/-- Put the text for each import behind those for the same offset. -/
def placeAll (place : Import → Nat × String) (d : Dict Nat String) (added : Imports) :
    Dict Nat String :=
  added.foldl (fun acc i => acc.alter (place i).1 fun old => old.getD "" ++ (place i).2) d

theorem placeAll_append (place : Import → Nat × String) (d : Dict Nat String)
    (now later : Imports) :
    placeAll place d (now ++ later) = placeAll place (placeAll place d now) later :=
  List.foldl_append

/-- The texts of imports for one offset behind all others make one entry. -/
theorem entries_placeAll {place : Import → Nat × String} {front : List (Nat × String)}
    {offset : Nat} (before : ∀ e ∈ front, e.1 < offset) {added : Imports}
    (placed : ∀ i ∈ added, (place i).1 = offset) {d : Dict Nat String} {old : Option String}
    (entries : d.entries = front ++ old.toList.map (offset, ·)) :
    (placeAll place d added).entries = front ++
      (added.foldl (fun old i => some (old.getD "" ++ (place i).2)) old).toList.map
        (offset, ·) := by
  induction added generalizing d old with
  | nil => exact entries
  | cons i added ih =>
    obtain ⟨first, others⟩ := List.forall_mem_cons.1 placed
    have altered := Dict.entries_alter (fun e member => Nat.compare_eq_lt.2 (before e member))
      entries fun old => old.getD "" ++ (place i).2
    rw [placeAll, List.foldl_cons, first]
    exact ih others altered

theorem foldl_texts {slot : Slot} {place : Import → Nat × String} {added : Imports}
    (texts : ∀ i ∈ added, (place i).2.toList = slot.lead ++ (i.render.toList ++ slot.trail))
    (text : String) :
    ∃ whole, added.foldl (fun old i => some (old.getD "" ++ (place i).2)) (some text) = some whole ∧
      whole.toList = text.toList ++ slot.text (added.map SpecText.ofImport) := by
  induction added generalizing text with
  | nil => exact ⟨text, rfl, by simp [Slot.text]⟩
  | cons i added ih =>
    obtain ⟨first, others⟩ := List.forall_mem_cons.1 texts
    obtain ⟨whole, folded, same⟩ := ih others (text ++ (place i).2)
    refine ⟨whole, folded, ?_⟩
    rw [same, String.toList_append, first]
    simp [Slot.text, SpecText.ofImport]

/-! ### Where the specs go -/

/-- The insertion of a text at its offset, in a block that closes at `close`. -/
def asInsertion (close : Nat) (entry : Nat × String) : Replacement :=
  if entry.1 = close ∧ entry.2.toList.head? ≠ some '\t' then insertAt entry.1 (entry.2 ++ "\n")
  else insertAt entry.1 entry.2

theorem blockInsertions_eq (source : List Char) (decl : ImportDecl) (close : Nat)
    (added : Imports) : blockInsertions source decl close added =
      (placeAll (placeSpec source decl close) ∅ added).entries.map (asInsertion close) :=
  rfl

/-- A slot tells how imports are placed into the gap at an offset of a block that closes at
`close`. -/
structure Slot.Serves (slot : Slot) (offset close : Nat) (gap : List Char)
    (place : Import → Nat × String) : Prop where
  fits : slot.Fits gap
  placed : ∀ i, place i = (offset + Utf8.size slot.head,
    String.ofList (slot.lead ++ (i.render.toList ++ slot.trail)))
  ended : (slot.final = [] ∧ (offset + Utf8.size slot.head ≠ close ∨ slot.lead = ['\t'])) ∨
    (slot.final = ['\n'] ∧ offset + Utf8.size slot.head = close ∧ slot.lead = ['\n', '\t'])

theorem Slot.Serves.asInsertion_eq {slot : Slot} {offset close : Nat} {gap : List Char}
    {place : Import → Nat × String} (serves : slot.Serves offset close gap place)
    {text : String} {w : SpecText} {specs : List SpecText}
    (written : text.toList = slot.text (w :: specs)) :
    [asInsertion close (offset + Utf8.size slot.head, text)] =
      slot.insertions offset (w :: specs) := by
  have begins : text.toList = slot.lead ++ (w.text ++ (slot.trail ++ slot.text specs)) := by
    rw [written]
    simp [Slot.text]
  rw [Slot.insertions, List.singleton_inj, asInsertion]
  rcases serves.ended with ⟨final, elsewhere | tab⟩ | ⟨final, here, newline⟩
  · rw [if_neg (fun both => elsewhere both.1), final, List.append_nil, ← written]
    rfl
  · rw [if_neg (fun both => both.2 (by rw [begins, tab]; rfl)), final, List.append_nil, ← written]
    rfl
  · have other : text.toList.head? ≠ some '\t' := by
      rw [begins, newline]
      simp
    rw [if_pos ⟨here, other⟩, final, ← written, insertAt, Utf8.ofString, String.toList_append]
    rfl

/-- What is inserted for imports of one slot. -/
theorem Slot.Serves.entries {slot : Slot} {offset close : Nat} {gap : List Char}
    {place served : Import → Nat × String} (serves : slot.Serves offset close gap served)
    {d : Dict Nat String} (before : ∀ e ∈ d.entries, e.1 < offset) {added : Imports}
    (same : ∀ i ∈ added, place i = served i) :
    ∃ entries, (placeAll place d added).entries = d.entries ++ entries ∧
      entries.map (asInsertion close) = slot.insertions offset (added.map SpecText.ofImport) ∧
      ∀ e ∈ entries, e.1 ≤ offset + Utf8.size gap := by
  have before' : ∀ e ∈ d.entries, e.1 < offset + Utf8.size slot.head := fun e member =>
    Nat.lt_add_right _ (before e member)
  have placed : ∀ i ∈ added, (place i).1 = offset + Utf8.size slot.head := by
    intro i member
    rw [same i member, serves.placed]
  have texts : ∀ i ∈ added, (place i).2.toList = slot.lead ++ (i.render.toList ++ slot.trail) := by
    intro i member
    rw [same i member, serves.placed, String.toList_ofList]
  have entries : d.entries = d.entries ++ (none : Option String).toList.map
      (offset + Utf8.size slot.head, ·) := by simp
  have made := entries_placeAll before' placed entries
  cases added with
  | nil => exact ⟨[], made, rfl, by simp⟩
  | cons i added =>
    obtain ⟨first, others⟩ := List.forall_mem_cons.1 texts
    obtain ⟨whole, folded, written⟩ := foldl_texts others ("" ++ (place i).2)
    have written : whole.toList = slot.text ((i :: added).map SpecText.ofImport) := by
      rw [written, String.toList_append, first]
      simp [Slot.text, SpecText.ofImport]
    have within : Utf8.size slot.head ≤ Utf8.size gap := by
      rw [serves.fits.whole, Utf8.size_append]
      exact Nat.le_add_right _ _
    refine ⟨[(offset + Utf8.size slot.head, whole)], ?_, serves.asInsertion_eq written, ?_⟩
    · rw [made, List.foldl_cons]
      exact congrArg (fun x : Option String => d.entries ++ x.toList.map _) folded
    · intro e member
      rw [List.mem_singleton.1 member]
      exact Nat.add_le_add_left within offset

/-! ### Slots for a spec and for the closing parenthesis -/

/-- The place of an import before a spec. -/
def placeBefore (source : List Char) (start : Nat) (i : Import) : Nat × String :=
  match specLineStart? source start with
  | some place => (place, "\t" ++ i.render ++ "\n")
  | none => (start, i.render ++ "; ")

/-- The place of an import behind all specs. -/
def placeLast (source : List Char) (close : Nat) (i : Import) : Nat × String :=
  match lineStart? source close with
  | some place => (place, "\t" ++ i.render ++ "\n")
  | none => (close, "\n\t" ++ i.render)

theorem placeSpec_of_find {source : List Char} {decl : ImportDecl} {close : Nat} {i : Import}
    {span : Span} {path : String}
    (found : decl.specs.find? (fun s => decide (i.path < s.2)) = some (span, path)) :
    placeSpec source decl close i = placeBefore source span.start i := by
  rw [placeSpec, found]
  rfl

theorem placeSpec_of_not_find {source : List Char} {decl : ImportDecl} {close : Nat} {i : Import}
    (missing : decl.specs.find? (fun s => decide (i.path < s.2)) = none) :
    placeSpec source decl close i = placeLast source close i := by
  rw [placeSpec, missing]
  rfl

/-- A gap that is cut at the start of a line takes lines. -/
theorem serves_line {offset place close : Nat} {lower upper : List Char}
    (filler : Filler (lower ++ '\n' :: upper))
    (begins : place = offset + Utf8.size (lower ++ ['\n'])) :
    Slot.Serves ⟨lower ++ ['\n'], upper, ['\t'], ['\n'], []⟩ offset close (lower ++ '\n' :: upper)
      fun i => (place, "\t" ++ i.render ++ "\n") where
  fits := {
    whole := by simp
    head := filler.split.1
    tail := filler.split.2
    lead := .loose (.inl rfl) .nil
    trail := .loose (.inl rfl) .nil
    final := .nil }
  placed := by
    intro i
    rw [begins, Prod.mk.injEq]
    refine ⟨rfl, String.toList_injective ?_⟩
    simp [String.toList_append]
  ended := .inl ⟨rfl, .inr rfl⟩

/-- The end of a gap takes specs on the line of the next one. -/
theorem serves_inline {offset close : Nat} {gap : List Char} (filler : Filler gap)
    (elsewhere : offset + Utf8.size gap ≠ close) :
    Slot.Serves ⟨gap, [], [], [';', ' '], []⟩ offset close gap
      fun i => (offset + Utf8.size gap, i.render ++ "; ") where
  fits := {
    whole := (List.append_nil gap).symm
    head := filler
    tail := .nil
    lead := .nil
    trail := .loose (.inr rfl) (.loose (.inl rfl) .nil)
    final := .nil }
  placed := by
    intro i
    rw [Prod.mk.injEq]
    refine ⟨rfl, String.toList_injective ?_⟩
    simp [String.toList_append]
  ended := .inl ⟨rfl, .inl elsewhere⟩

/-- The end of the last gap takes lines, the last of them ended. -/
theorem serves_closing {offset : Nat} {gap : List Char} (filler : Filler gap) :
    Slot.Serves ⟨gap, [], ['\n', '\t'], [], ['\n']⟩ offset (offset + Utf8.size gap) gap
      fun i => (offset + Utf8.size gap, "\n\t" ++ i.render) where
  fits := {
    whole := (List.append_nil gap).symm
    head := filler
    tail := .nil
    lead := .loose (.inl rfl) (.loose (.inl rfl) .nil)
    trail := .nil
    final := .loose (.inl rfl) .nil }
  placed := by
    intro i
    rw [Prod.mk.injEq]
    refine ⟨rfl, String.toList_injective ?_⟩
    simp [String.toList_append]
  ended := .inr ⟨rfl, rfl, rfl⟩

section Gap

variable {source text gap rest : List Char} (settled : Settled text) (filler : Filler gap)
  (whole : source = text ++ (gap ++ rest))

include settled filler whole

theorem exists_serves_before {close : Nat} (elsewhere : Utf8.size text + Utf8.size gap ≠ close) :
    ∃ slot : Slot, slot.Serves (Utf8.size text) close gap
      (placeBefore source (Utf8.size text + Utf8.size gap)) := by
  unfold placeBefore
  rw [← Utf8.size_append]
  cases found : specLineStart? source (Utf8.size (text ++ gap)) with
  | some place =>
    obtain ⟨lower, upper, rfl, begins⟩ := specLineStart?_cut settled whole found
    exact ⟨_, serves_line filler begins⟩
  | none =>
    rw [Utf8.size_append]
    exact ⟨_, serves_inline filler elsewhere⟩

theorem exists_serves_last : ∃ slot : Slot,
    slot.Serves (Utf8.size text) (Utf8.size text + Utf8.size gap) gap
      (placeLast source (Utf8.size text + Utf8.size gap)) := by
  unfold placeLast
  rw [← Utf8.size_append]
  cases found : lineStart? source (Utf8.size (text ++ gap)) with
  | some place =>
    obtain ⟨lower, upper, rfl, begins⟩ := lineStart?_cut settled whole found
    exact ⟨_, serves_line filler begins⟩
  | none =>
    rw [Utf8.size_append]
    exact ⟨_, serves_closing filler⟩

end Gap

/-! ### The whole block -/

/-- Imports in order are parted by a path. -/
theorem exists_parts (path : String) {added : Imports}
    (ordered : added.Pairwise (·.path ≤ ·.path)) :
    ∃ now later, added = now ++ later ∧ (∀ i ∈ now, i.path < path) ∧
      ∀ i ∈ later, path ≤ i.path := by
  induction added with
  | nil => exact ⟨[], [], rfl, by simp, by simp⟩
  | cons i added ih =>
    obtain ⟨first, others⟩ := List.pairwise_cons.1 ordered
    by_cases less : i.path < path
    · obtain ⟨now, later, rfl, lesser, greater⟩ := ih others
      exact ⟨i :: now, later, rfl, List.forall_mem_cons.2 ⟨less, lesser⟩, greater⟩
    · have le : path ≤ i.path := String.not_lt.1 less
      have all : ∀ j ∈ i :: added, path ≤ j.path :=
        List.forall_mem_cons.2 ⟨le, fun j member => String.le_trans le (first j member)⟩
      exact ⟨[], i :: added, rfl, by simp, all⟩

section Walk

variable (source after : List Char) (decl : ImportDecl) (close : Nat)

/-- The walk through a sorted block has come to the end of `text`; `block` and the sorted imports
`added`, which look for their places in it, are ahead, and the texts in `d` are placed. -/
structure Stage (block : Block) (text : List Char) (added : Imports) (d : Dict Nat String) :
    Prop where
  padded : block.Padded
  oneLined : ∀ w ∈ block.specs, w.OneLined
  sorted : block.Sorted
  settled : Settled text
  whole : source = text ++ (block.chars ++ after)
  closes : close = Utf8.size text + Utf8.size block.chars
  ordered : added.Pairwise (·.path ≤ ·.path)
  finds : ∀ i ∈ added, decl.specs.find? (fun s => decide (i.path < s.2)) =
    (block.listed (Utf8.size text)).find? fun s => decide (i.path < s.2)
  before : ∀ e ∈ d.entries, e.1 < Utf8.size text

variable {source after decl close} {text gap : List Char} {d : Dict Nat String}

/-- The imports with lesser paths go before a spec, and the walk goes on behind it with the
others. -/
theorem Stage.step {w : SpecText} {block : Block} {now later : Imports}
    (stage : Stage source after decl close (.spec gap w block) text (now ++ later) d)
    (lesser : ∀ i ∈ now, i.path < w.path) (greater : ∀ i ∈ later, w.path ≤ i.path) :
    ∃ entries, ∃ slot : Slot, slot.Fits gap ∧
      entries.map (asInsertion close) =
        slot.insertions (Utf8.size text) (now.map SpecText.ofImport) ∧
      (placeAll (placeSpec source decl close) d now).entries = d.entries ++ entries ∧
      Stage source after decl close block (text ++ (gap ++ w.text)) later
        (placeAll (placeSpec source decl close) d now) := by
  obtain ⟨filler, padded⟩ := stage.padded
  obtain ⟨lined, oneLined⟩ := List.forall_mem_cons.1 stage.oneLined
  obtain ⟨c, cs, begins, solid, plain⟩ := lined.begins
  have wide : 0 < Utf8.size w.text := Utf8.size_pos (by simp [begins])
  have sizes : Utf8.size (text ++ (gap ++ w.text)) =
      Utf8.size text + Utf8.size gap + Utf8.size w.text := by
    rw [Utf8.size_append, Utf8.size_append, Nat.add_assoc]
  have whole : source = text ++ (gap ++ (w.text ++ (block.chars ++ after))) := by
    rw [stage.whole, Block.chars]
    simp
  have closes := stage.closes
  rw [Block.chars, Utf8.size_append, Utf8.size_append] at closes
  obtain ⟨slot, serves⟩ := exists_serves_before stage.settled filler whole
    (by omega : Utf8.size text + Utf8.size gap ≠ close)
  have placed : ∀ i ∈ now, placeSpec source decl close i =
      placeBefore source (Utf8.size text + Utf8.size gap) i := by
    intro i member
    have found := (stage.finds i (List.mem_append_left _ member)).trans
      (List.find?_cons_of_pos (decide_eq_true (lesser i member)))
    rw [placeSpec_of_find found]
  obtain ⟨entries, made, inserted, within⟩ := serves.entries stage.before placed
  refine ⟨entries, slot, serves.fits, inserted, made, ?_⟩
  exact {
    padded := padded
    oneLined := oneLined
    sorted := (List.pairwise_cons.1 stage.sorted).2
    settled := stage.settled.append_spec filler begins solid plain lined.clear
    whole := by
      rw [whole]
      simp
    closes := by omega
    ordered := (List.pairwise_append.1 stage.ordered).2.1
    finds := by
      intro i member
      rw [stage.finds i (List.mem_append_right _ member), Block.listed, sizes]
      have notLess : ¬i.path < w.path := String.not_lt.2 (greater i member)
      exact List.find?_cons_of_neg fun less => notLess (of_decide_eq_true less)
    before := by
      intro e member
      rw [made] at member
      rcases List.mem_append.1 member with old | new
      · have := stage.before e old
        omega
      · have := within e new
        omega }

/-- The walk puts all imports in order. -/
theorem Stage.exists_merged {block : Block} {added : Imports}
    (stage : Stage source after decl close block text added d) :
    ∃ entries merged,
      (placeAll (placeSpec source decl close) d added).entries = d.entries ++ entries ∧
        Merged (Utf8.size text) block (added.map SpecText.ofImport)
          (entries.map (asInsertion close)) merged := by
  have ordered : ∀ {imports : Imports}, imports.Pairwise (·.path ≤ ·.path) →
      (imports.map SpecText.ofImport).Pairwise (·.path ≤ ·.path) :=
    fun paths => List.pairwise_map.2 paths
  induction block generalizing text added d with
  | close gap =>
    have closes : close = Utf8.size text + Utf8.size gap := stage.closes
    obtain ⟨slot, serves⟩ := exists_serves_last stage.settled stage.padded stage.whole
    rw [← closes] at serves
    have placed : ∀ i ∈ added, placeSpec source decl close i = placeLast source close i :=
      fun i member => placeSpec_of_not_find (stage.finds i member)
    obtain ⟨entries, made, inserted, -⟩ := serves.entries stage.before placed
    have merged := Merged.close serves.fits (Utf8.size text) (ordered stage.ordered)
    rw [← inserted] at merged
    exact ⟨entries, _, made, merged⟩
  | spec gap w block ih =>
    obtain ⟨now, later, rfl, lesser, greater⟩ := exists_parts w.path stage.ordered
    obtain ⟨early, slot, fits, inserted, made, next⟩ := stage.step lesser greater
    obtain ⟨others, merged, made', inner⟩ := ih next
    rw [Utf8.size_append, Utf8.size_append, ← Nat.add_assoc] at inner
    have least : ∀ v ∈ block.specs ++ later.map SpecText.ofImport, w.path ≤ v.path := by
      rw [List.forall_mem_append, List.forall_mem_map]
      exact ⟨(List.pairwise_cons.1 stage.sorted).1, greater⟩
    have greatest : ∀ v ∈ now.map SpecText.ofImport, v.path ≤ w.path := by
      rw [List.forall_mem_map]
      exact fun i member => Std.le_of_lt (lesser i member)
    have merged := Merged.spec fits (Utf8.size text) inner
      (ordered (List.pairwise_append.1 stage.ordered).1) greatest least
    rw [← inserted, ← List.map_append, ← List.map_append] at merged
    refine ⟨early ++ others, _, ?_, merged⟩
    rw [placeAll_append, made', made, List.append_assoc]

end Walk

/-! ### Files with a sorted block -/

/-- The last parenthesised import declaration of a file lists its specs in order of their paths,
each on one line and with fillers between them. -/
structure SortedIn (unit : SourceUnit) (before : List Char) (block : Block) (after : List Char) :
    Prop where
  source : unit.source.toList = before ++ '(' :: (block.chars ++ ')' :: after)
  last : ∃ decl, decl.specs = block.listed (Utf8.size before + 1) ∧
    lastBlock? unit.importDecls = some (decl, Utf8.size before + 1 + Utf8.size block.chars)
  padded : block.Padded
  oneLined : ∀ w ∈ block.specs, w.OneLined
  sorted : block.Sorted

/-- A file that shall have some imports, and is not changed otherwise. -/
def importing (unit : SourceUnit) (imports : Imports) : FileEdit :=
  { FileEdit.ofUnit unit with imports }

/-- The imports that a file does not have yet are inserted into its block once each, between specs
and outside of comments, and the specs of the block are in order as before. -/
structure StaysSorted (unit : SourceUnit) (before : List Char) (block : Block)
    (after : List Char) (imports : Imports) : Prop where
  cuts : ∀ r ∈ (importing unit imports).replacements, Cut (Utf8.size before + 1) block r
  merged : ∃ merged : Block,
    splice (Utf8.ofString unit.source) (importing unit imports).replacements =
      .ok (Utf8.encode (before ++ '(' :: (merged.chars ++ ')' :: after))) ∧
    merged.specs.Perm (block.specs ++ (importing unit imports).added.map SpecText.ofImport) ∧
    merged.Sorted ∧ merged.Padded
  nodup : (importing unit imports).added.Nodup
  mem_added : ∀ i, i ∈ (importing unit imports).added ↔ i ∈ imports ∧ i ∉ unit.imports

theorem inOrder_blockInsertions (source : List Char) (decl : ImportDecl) (close : Nat)
    (added : Imports) : inOrder (blockInsertions source decl close added) =
      blockInsertions source decl close added := by
  refine List.mergeSort_of_pairwise ?_
  rw [blockInsertions_eq, List.pairwise_map]
  refine (placeAll (placeSpec source decl close) ∅ added).sorted.imp fun {a b} less => ?_
  have place : ∀ e : Nat × String, (asInsertion close e).span = ⟨e.1, e.1⟩ := by
    intro e
    rw [asInsertion]
    split <;> rfl
  rw [place, place, isLE_compare_span]
  exact .inl (Nat.compare_eq_lt.1 less)

theorem replacements_importing {unit : SourceUnit} {decl : ImportDecl} {close : Nat}
    (last : lastBlock? unit.importDecls = some (decl, close)) (imports : Imports) :
    (importing unit imports).replacements =
      blockInsertions unit.source.toList decl close (importing unit imports).added := by
  have insertions : importInsertions unit (importing unit imports).added =
      blockInsertions unit.source.toList decl close (importing unit imports).added := by
    rw [importInsertions, last]
  rw [← inOrder_blockInsertions, ← insertions, FileEdit.replacements]
  refine congrArg inOrder ?_
  split
  · rename_i empty
    rw [insertions, List.isEmpty_iff.1 empty]
    rfl
  · rfl

/-- Added imports keep a sorted block sorted, unless the line of its opening parenthesis looks like
a comment line. -/
theorem SortedIn.staysSorted {unit : SourceUnit} {before : List Char} {block : Block}
    {after : List Char} (sortedIn : SortedIn unit before block after)
    (plain : isCommentLine (currentLine (before ++ ['('])) = false) (imports : Imports) :
    StaysSorted unit before block after imports := by
  obtain ⟨decl, specs, last⟩ := sortedIn.last
  have opened : Utf8.size (before ++ ['(']) = Utf8.size before + 1 := by
    rw [Utf8.size_append]
    rfl
  have source : unit.source.toList = (before ++ ['(']) ++ (block.chars ++ ')' :: after) := by
    rw [sortedIn.source]
    simp
  have stage : Stage unit.source.toList (')' :: after) decl
      (Utf8.size before + 1 + Utf8.size block.chars) block (before ++ ['('])
      (importing unit imports).added ∅ := {
    padded := sortedIn.padded
    oneLined := sortedIn.oneLined
    sorted := sortedIn.sorted
    settled := settled_of_paren plain
    whole := source
    closes := by rw [opened]
    ordered := (Imports.inOrder_sorted _).imp Import.path_le_of_le
    finds := by
      intro i _
      rw [specs, opened]
    before := fun e member => by cases member }
  obtain ⟨entries, merged, made, into⟩ := stage.exists_merged
  have inserted : (importing unit imports).replacements =
      entries.map (asInsertion (Utf8.size before + 1 + Utf8.size block.chars)) := by
    rw [replacements_importing last, blockInsertions_eq, made]
    rfl
  rw [← inserted] at into
  have spliced := into.splice_whole (')' :: after)
  rw [← source] at spliced
  refine ⟨opened ▸ into.cuts, ⟨merged, ?_, into.perm, into.sorted, into.padded⟩,
    Imports.nodup_inOrder _, fun i => Imports.mem_addedSince⟩
  simpa [Utf8.ofString] using spliced

theorem exists_unit {α : Type} {path : Path} {source : String} {view : SourceUnit → α} {value : α}
    (read : (SourceUnit.parse path source).toOption.map view = some value) :
    ∃ unit, SourceUnit.parse path source = .ok unit ∧ view unit = value := by
  cases parsed : SourceUnit.parse path source with
  | error _ =>
    rw [parsed] at read
    cases read
  | ok unit =>
    rw [parsed] at read
    exact ⟨unit, rfl, Option.some.inj read⟩

/-- A block with a comment between its specs, two of them on one line with the closing
parenthesis. -/
theorem staysSorted_mixed :
    let source := "package a\n\nimport (\n\t\"fmt\"\n\t// logging\n\t\"log\"; \"os\")\n"
    ∃ unit, SourceUnit.parse "a.go" source = .ok unit ∧
      StaysSorted unit "package a\n\nimport ".toList
        (.spec ['\n', '\t'] ⟨"\"fmt\"".toList, "fmt"⟩
          (.spec "\n\t// logging\n\t".toList ⟨"\"log\"".toList, "log"⟩
            (.spec [';', ' '] ⟨"\"os\"".toList, "os"⟩ (.close []))))
        ['\n']
        [⟨none, "time"⟩, ⟨none, "io"⟩, ⟨none, "fmt"⟩, ⟨some "yaml", "net"⟩, ⟨none, "go/ast"⟩] := by
  intro source
  have read : (SourceUnit.parse "a.go" source).toOption.map
      (fun unit => (unit.source, lastBlock? unit.importDecls)) =
      some (source, some (⟨⟨11, 52⟩, some 51,
        [(⟨21, 26⟩, "fmt"), (⟨40, 45⟩, "log"), (⟨47, 51⟩, "os")]⟩, 51)) := by
    decide +kernel
  obtain ⟨unit, parsed, view⟩ := exists_unit read
  obtain ⟨text, last⟩ := Prod.mk.inj view
  have blank : ∀ {cs}, Filler cs → Filler ('\n' :: '\t' :: cs) := fun filler =>
    .loose (.inl rfl) (.loose (.inl rfl) filler)
  have comment : Filler "// logging\n\t".toList :=
    @Filler.comment " logging".toList ['\t'] (by decide) (.loose (.inl rfl) .nil)
  refine ⟨unit, parsed, SortedIn.staysSorted ?_ (by decide) _⟩
  exact {
    source := by rw [text]; decide
    last := ⟨_, by decide, last⟩
    padded := ⟨blank .nil, blank comment, .loose (.inr rfl) (.loose (.inl rfl) .nil), .nil⟩
    oneLined := by
      simp only [Block.specs, List.forall_mem_cons]
      exact ⟨⟨by decide, _, _, rfl, rfl, by decide⟩, ⟨by decide, _, _, rfl, rfl, by decide⟩,
        ⟨by decide, _, _, rfl, rfl, by decide⟩, by simp⟩
    sorted := by
      rw [Block.Sorted]
      decide }

/-- Where a block comment ends on the line of the opening parenthesis, that line is taken for one of
the comment lines above the first spec, and the new spec goes into the block comment. -/
theorem not_staysSorted :
    let source := "package a\n\n/* the\n// standard */ import (\n\t\"os\"\n)\n"
    let before := "package a\n\n/* the\n// standard */ import ".toList
    let block := Block.spec ['\n', '\t'] ⟨"\"os\"".toList, "os"⟩ (.close ['\n'])
    ∃ unit, SourceUnit.parse "a.go" source = .ok unit ∧ SortedIn unit before block ['\n'] ∧
      ¬StaysSorted unit before block ['\n'] [⟨none, "os"⟩, ⟨none, "fmt"⟩] := by
  intro source before block
  have read : (SourceUnit.parse "a.go" source).toOption.map
      (fun unit => (unit.source, unit.imports, lastBlock? unit.importDecls)) =
      some (source, [⟨none, "os"⟩],
        some (⟨⟨33, 49⟩, some 48, [(⟨43, 47⟩, "os")]⟩, 48)) := by
    decide +kernel
  have placed : (SourceUnit.parse "a.go" source).toOption.map
      (fun unit => (importInsertions unit [⟨none, "fmt"⟩]).map (·.span)) = some [⟨18, 18⟩] := by
    decide +kernel
  obtain ⟨unit, parsed, view⟩ := exists_unit read
  simp only [Prod.mk.injEq] at view
  obtain ⟨text, imports, last⟩ := view
  have filler : Filler ['\n'] := .loose (.inl rfl) .nil
  refine ⟨unit, parsed, ?_, fun stays => ?_⟩
  · exact {
      source := by rw [text]; decide
      last := ⟨_, by decide, last⟩
      padded := ⟨.loose (.inl rfl) (.loose (.inl rfl) .nil), filler⟩
      oneLined := by
        simp only [Block.specs, List.forall_mem_cons, block]
        exact ⟨⟨by decide, _, _, rfl, rfl, by decide⟩, by simp⟩
      sorted := by
        rw [Block.Sorted]
        decide }
  · -- the insertion is at offset 18, far before the parenthesis
    have added : (importing unit [⟨none, "os"⟩, ⟨none, "fmt"⟩]).added = [⟨none, "fmt"⟩] := by
      have missing : ([⟨none, "os"⟩, ⟨none, "fmt"⟩] : Imports).filter
          (fun i => !([⟨none, "os"⟩] : Imports).contains i) = [⟨none, "fmt"⟩] := by decide
      show Imports.addedSince [⟨none, "os"⟩, ⟨none, "fmt"⟩] unit.imports = _
      rw [imports, Imports.addedSince, missing, Imports.inOrder, List.mergeSort_singleton]
      rfl
    obtain ⟨_, parsed', spans⟩ := exists_unit placed
    obtain rfl := Except.ok.inj (parsed.symm.trans parsed')
    obtain ⟨r, member, span⟩ : ∃ r ∈ importInsertions unit [⟨none, "fmt"⟩], r.span = ⟨18, 18⟩ := by
      rw [← List.mem_map, spans]
      exact List.mem_cons_self
    rw [importInsertions, last, ← added] at member
    have cut := stays.cuts r (replacements_importing last _ ▸ member)
    have late : Utf8.size before + 1 ≤ 18 := by simpa [span] using cut.le
    revert late
    decide

end Marginalia.Edit
