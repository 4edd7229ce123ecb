/-
Module: Marginalia.Proofs.Edit.Block
Purpose: Import blocks as specs and the gaps between them, and what comes of specs that are put into
  the gaps.
Main exports:
  SpecText, Block, Block.Padded, Block.Sorted, Slot, Slot.put, Cut, Merged, Merged.close,
  Merged.spec
-/
import Marginalia.Proofs.Edit.Filler
import Marginalia.Go.Import

namespace Marginalia.Edit

open Go (Import ImportDecl Imports SourceUnit Span)
open Text (isBlank)

/-! ### Import blocks -/

/-- A spec as it is written, and the path that it imports. -/
structure SpecText where
  text : List Char
  path : String
deriving Repr, DecidableEq

namespace SpecText

/-- The spec that is written for an import. -/
def ofImport (i : Import) : SpecText := ⟨i.render.toList, i.path⟩

/-- The spec stands on one line and begins with neither a blank nor a slash. -/
structure OneLined (w : SpecText) : Prop where
  clear : '\n' ∉ w.text
  begins : ∃ c rest, w.text = c :: rest ∧ isBlank c = false ∧ c ≠ '/'

end SpecText

/-- What stands between the parentheses of an import declaration: specs, each behind a gap, and the
gap before the closing parenthesis. -/
inductive Block where
  | close (gap : List Char)
  | spec (gap : List Char) (spec : SpecText) (rest : Block)
deriving Repr, DecidableEq

namespace Block

/-- The text of a block. -/
def chars : Block → List Char
  | close gap => gap
  | spec gap w rest => gap ++ (w.text ++ rest.chars)

/-- The specs of a block. -/
def specs : Block → List SpecText
  | close _ => []
  | spec _ w rest => w :: rest.specs

/-- The spans and paths of the specs of a block that begins at an offset. -/
def listed (offset : Nat) : Block → List (Span × String)
  | close _ => []
  | spec gap w rest =>
    let start := offset + Utf8.size gap
    (⟨start, start + Utf8.size w.text⟩, w.path) :: rest.listed (start + Utf8.size w.text)

/-- The gaps of a block that begins at an offset, each with the offset where it begins. -/
def gaps (offset : Nat) : Block → List (Nat × List Char)
  | close gap => [(offset, gap)]
  | spec gap w rest => (offset, gap) :: rest.gaps (offset + Utf8.size gap + Utf8.size w.text)

/-- All gaps are fillers. -/
def Padded : Block → Prop
  | close gap => Filler gap
  | spec gap _ rest => Filler gap ∧ rest.Padded

/-- The specs are in order of their paths. -/
def Sorted (block : Block) : Prop :=
  block.specs.Pairwise (·.path ≤ ·.path)

/-- The block with another first gap. -/
def withGap (gap : List Char) : Block → Block
  | close _ => close gap
  | spec _ w rest => spec gap w rest

/-- The text behind the first gap. -/
def body : Block → List Char
  | close _ => []
  | spec _ w rest => w.text ++ rest.chars

theorem le_of_mem_gaps {block : Block} {offset : Nat} {x : Nat × List Char}
    (member : x ∈ block.gaps offset) : offset ≤ x.1 := by
  induction block generalizing offset with
  | close gap =>
    rw [gaps, List.mem_singleton] at member
    rw [member]
  | spec gap w rest ih =>
    rcases List.mem_cons.1 member with rfl | later
    · exact Nat.le_refl _
    · have := ih later
      omega

@[simp] theorem chars_withGap (gap : List Char) (block : Block) :
    (block.withGap gap).chars = gap ++ block.body := by
  cases block <;> simp [withGap, chars, body]

@[simp] theorem specs_withGap (gap : List Char) (block : Block) :
    (block.withGap gap).specs = block.specs := by
  cases block <;> rfl

theorem Padded.withGap {block : Block} (padded : block.Padded) {gap : List Char}
    (filler : Filler gap) : (block.withGap gap).Padded := by
  cases block with
  | close _ => exact filler
  | spec _ _ _ => exact ⟨filler, padded.2⟩

end Block

/-! ### Splicing along a text -/

/-- A splice copies what stands before all replacements. -/
theorem spliceFrom_skip {size cursor : Nat} {front back out : Bytes} {rs : List Replacement}
    (ahead : ∀ r ∈ rs, cursor + front.length ≤ r.span.start)
    (spliced : spliceFrom size (cursor + front.length) back rs = .ok out) :
    spliceFrom size cursor (front ++ back) rs = .ok (front ++ out) := by
  cases rs with
  | nil =>
    rw [spliceFrom, Except.ok.injEq] at spliced
    rw [spliceFrom, spliced]
  | cons r rs =>
    have start := ahead r List.mem_cons_self
    rw [spliceFrom] at spliced ⊢
    split_ifs at spliced with outside overlap
    have order : r.span.start ≤ r.span.stop := by omega
    have later : ¬r.span.start < cursor := by omega
    have rest : (front ++ back).drop (r.span.stop - cursor) =
        back.drop (r.span.stop - (cursor + front.length)) := by
      rw [List.drop_append, List.drop_of_length_le (by omega), List.nil_append]
      congr 1
      omega
    have kept : (front ++ back).take (r.span.start - cursor) =
        front ++ back.take (r.span.start - (cursor + front.length)) := by
      rw [List.take_append, List.take_of_length_le (by omega)]
      congr 2
      omega
    rw [if_neg outside, if_neg later, rest, kept]
    cases tail : spliceFrom size r.span.stop
        (back.drop (r.span.stop - (cursor + front.length))) rs with
    | error fault => simp [tail, Except.map] at spliced
    | ok bytes =>
      simp only [tail, Except.map, Except.ok.injEq] at spliced ⊢
      rw [← spliced]
      simp

/-- An insertion at the cursor goes in front of the rest. -/
theorem spliceFrom_insert {size cursor : Nat} {rest out : Bytes} {rs : List Replacement}
    (bytes : Bytes) (inside : cursor ≤ size) (spliced : spliceFrom size cursor rest rs = .ok out) :
    spliceFrom size cursor rest (⟨⟨cursor, cursor⟩, bytes⟩ :: rs) = .ok (bytes ++ out) := by
  have within : ¬size < cursor := by omega
  simp [spliceFrom, within, spliced, Except.map]

/-! ### Specs that are put into a gap -/

/-- How specs are put into a gap: it is cut into `head` and `tail`, each spec stands between `lead`
and `trail`, and `final` ends the last of them. -/
structure Slot where
  head : List Char
  tail : List Char
  lead : List Char
  trail : List Char
  final : List Char

namespace Slot

variable (slot : Slot)

/-- The cut is one of a gap, and the specs are apart. -/
structure Fits (gap : List Char) : Prop where
  whole : gap = slot.head ++ slot.tail
  head : Filler slot.head
  tail : Filler slot.tail
  lead : Filler slot.lead
  trail : Filler slot.trail
  final : Filler slot.final

/-- The texts of specs, one behind the other. -/
def text (specs : List SpecText) : List Char :=
  specs.flatMap fun w => slot.lead ++ (w.text ++ slot.trail)

/-- A block with specs put behind others in its first gap. -/
def putBehind : List SpecText → Block → Block
  | [], block => block.withGap (slot.trail ++ (slot.final ++ slot.tail))
  | w :: specs, block => .spec (slot.trail ++ slot.lead) w (putBehind specs block)

/-- A block with specs put into its first gap. -/
def put : List SpecText → Block → Block
  | [], block => block
  | w :: specs, block => .spec (slot.head ++ slot.lead) w (slot.putBehind specs block)

/-- What stands in the place of the gap when specs are put into it. -/
def filled : List SpecText → List Char
  | [] => slot.head ++ slot.tail
  | w :: specs => slot.head ++ (slot.text (w :: specs) ++ (slot.final ++ slot.tail))

/-- The insertion of specs into the gap at an offset, unless there are none. -/
def insertions (offset : Nat) : List SpecText → List Replacement
  | [] => []
  | w :: specs =>
    let place := offset + Utf8.size slot.head
    [⟨⟨place, place⟩, Utf8.encode (slot.text (w :: specs) ++ slot.final)⟩]

theorem chars_putBehind (specs : List SpecText) (block : Block) :
    (slot.putBehind specs block).chars =
      slot.trail ++ (slot.text specs ++ (slot.final ++ (slot.tail ++ block.body))) := by
  induction specs with
  | nil => simp [putBehind, text]
  | cons w specs ih => simp [putBehind, Block.chars, text, ih]

theorem specs_putBehind (specs : List SpecText) (block : Block) :
    (slot.putBehind specs block).specs = specs ++ block.specs := by
  induction specs with
  | nil => simp [putBehind]
  | cons w specs ih => simp [putBehind, Block.specs, ih]

theorem specs_put (specs : List SpecText) (block : Block) :
    (slot.put specs block).specs = specs ++ block.specs := by
  cases specs with
  | nil => rfl
  | cons w specs => simp [put, Block.specs, specs_putBehind]

variable {slot} {gap : List Char} (fits : slot.Fits gap)

include fits

theorem Fits.chars_put {block : Block} (first : block.withGap gap = block)
    (specs : List SpecText) :
    (slot.put specs block).chars = slot.filled specs ++ block.body := by
  cases specs with
  | nil => rw [put, filled, ← fits.whole, ← Block.chars_withGap, first]
  | cons w specs => simp [put, filled, Block.chars, chars_putBehind, text]

theorem Fits.padded_putBehind (specs : List SpecText) {block : Block} (padded : block.Padded) :
    (slot.putBehind specs block).Padded := by
  induction specs with
  | nil => exact padded.withGap (fits.trail.append (fits.final.append fits.tail))
  | cons w specs ih => exact ⟨fits.trail.append fits.lead, ih⟩

theorem Fits.padded_put (specs : List SpecText) {block : Block} (padded : block.Padded) :
    (slot.put specs block).Padded := by
  cases specs with
  | nil => exact padded
  | cons w specs => exact ⟨fits.head.append fits.lead, fits.padded_putBehind specs padded⟩

theorem Fits.spliceFrom_put {size offset : Nat} {rest out : Bytes} {rs : List Replacement}
    (specs : List SpecText) (inside : offset + Utf8.size gap ≤ size)
    (ahead : ∀ r ∈ rs, offset + Utf8.size gap ≤ r.span.start)
    (spliced : spliceFrom size (offset + Utf8.size gap) rest rs = .ok out) :
    spliceFrom size offset (Utf8.encode gap ++ rest) (slot.insertions offset specs ++ rs) =
      .ok (Utf8.encode (slot.filled specs) ++ out) := by
  cases specs with
  | nil =>
    rw [filled, ← fits.whole]
    rw [← Utf8.length_encode] at ahead spliced
    exact spliceFrom_skip ahead spliced
  | cons w specs =>
    have sizes : offset + Utf8.size gap =
        offset + (Utf8.encode slot.head).length + (Utf8.encode slot.tail).length := by
      rw [fits.whole, Utf8.size_append, Utf8.length_encode, Utf8.length_encode]
      omega
    rw [sizes] at inside ahead spliced
    -- from the end of the gap to its start
    have behind := spliceFrom_skip ahead spliced
    have inserted : spliceFrom size (offset + (Utf8.encode slot.head).length)
        (Utf8.encode slot.tail ++ rest) (slot.insertions offset (w :: specs) ++ rs) =
          .ok (Utf8.encode (slot.text (w :: specs) ++ slot.final) ++
            (Utf8.encode slot.tail ++ out)) := by
      rw [insertions, ← Utf8.length_encode]
      exact spliceFrom_insert _ (by omega) behind
    have ahead' : ∀ r ∈ slot.insertions offset (w :: specs) ++ rs,
        offset + (Utf8.encode slot.head).length ≤ r.span.start := by
      intro r member
      rcases List.mem_cons.1 member with rfl | later
      · rw [Utf8.length_encode]
      · have := ahead r later
        omega
    have whole := spliceFrom_skip ahead' inserted
    rw [fits.whole, Utf8.encode_append, List.append_assoc, whole, filled]
    simp [Utf8.encode_append]

end Slot

/-! ### Blocks with specs put in -/

/-- A replacement inserts into a gap of a block, where it cuts it into two fillers: between two
specs and in no comment. -/
def Cut (offset : Nat) (block : Block) (r : Replacement) : Prop :=
  ∃ x ∈ block.gaps offset, ∃ front back, x.2 = front ++ back ∧ Filler front ∧ Filler back ∧
    r.span = ⟨x.1 + Utf8.size front, x.1 + Utf8.size front⟩

theorem Cut.le {offset : Nat} {block : Block} {r : Replacement} (cut : Cut offset block r) :
    offset ≤ r.span.start := by
  obtain ⟨x, member, front, -, -, -, -, place⟩ := cut
  have := Block.le_of_mem_gaps member
  rw [place]
  exact this.trans (Nat.le_add_right _ _)

theorem Slot.Fits.cut {slot : Slot} {gap : List Char} (fits : slot.Fits gap) {offset : Nat}
    {block : Block} (member : (offset, gap) ∈ block.gaps offset) {specs : List SpecText} :
    ∀ r ∈ slot.insertions offset specs, Cut offset block r := by
  intro r inserted
  cases specs with
  | nil => cases inserted
  | cons w specs =>
    obtain rfl := List.mem_singleton.1 inserted
    exact ⟨_, member, slot.head, slot.tail, fits.whole, fits.head, fits.tail, rfl⟩

/-- A block at an offset becomes, by replacements, one with further specs. -/
structure Merged (offset : Nat) (block : Block) (specs : List SpecText) (rs : List Replacement)
    (merged : Block) : Prop where
  perm : merged.specs.Perm (block.specs ++ specs)
  sorted : merged.Sorted
  padded : merged.Padded
  cuts : ∀ r ∈ rs, Cut offset block r
  spliced : ∀ (size : Nat) (rest : Bytes), offset + Utf8.size block.chars ≤ size →
    spliceFrom size offset (Utf8.encode block.chars ++ rest) rs =
      .ok (Utf8.encode merged.chars ++ rest)

namespace Merged

variable {slot : Slot} {gap : List Char} (fits : slot.Fits gap) (offset : Nat)

include fits

/-- Sorted specs before the closing parenthesis. -/
theorem close {specs : List SpecText} (sorted : specs.Pairwise (·.path ≤ ·.path)) :
    Merged offset (.close gap) specs (slot.insertions offset specs)
      (slot.put specs (.close gap)) where
  perm := by simp [Slot.specs_put, Block.specs]
  sorted := by simpa [Block.Sorted, Slot.specs_put, Block.specs] using sorted
  padded := fits.padded_put specs (fits.whole ▸ fits.head.append fits.tail)
  cuts := fits.cut List.mem_cons_self
  spliced := by
    intro size rest inside
    have spliced := fits.spliceFrom_put specs inside (fun r member => by cases member)
      (rfl : spliceFrom size (offset + Utf8.size gap) rest [] = .ok rest)
    rw [List.append_nil] at spliced
    rw [Block.chars, spliced, fits.chars_put rfl, Block.body, List.append_nil]

/-- Sorted specs before another, and others behind it. -/
theorem spec {w : SpecText} {block : Block} {now later : List SpecText} {rs : List Replacement}
    {merged : Block}
    (inner : Merged (offset + Utf8.size gap + Utf8.size w.text) block later rs merged)
    (sorted : now.Pairwise (·.path ≤ ·.path)) (before : ∀ v ∈ now, v.path ≤ w.path)
    (behind : ∀ v ∈ block.specs ++ later, w.path ≤ v.path) :
    Merged offset (.spec gap w block) (now ++ later) (slot.insertions offset now ++ rs)
      (slot.put now (.spec gap w merged)) where
  perm := by
    rw [Slot.specs_put]
    refine ((inner.perm.cons w).append_left now).trans ?_
    rw [← List.cons_append]
    exact List.perm_append_comm_assoc _ _ _
  sorted := by
    have above : ∀ v ∈ merged.specs, w.path ≤ v.path := fun v member =>
      behind v (inner.perm.mem_iff.1 member)
    rw [Block.Sorted, Slot.specs_put, Block.specs, List.pairwise_append, List.pairwise_cons]
    refine ⟨sorted, ⟨above, inner.sorted⟩, fun a member => ?_⟩
    rw [List.forall_mem_cons]
    exact ⟨before a member, fun b member' => String.le_trans (before a member) (above b member')⟩
  padded := fits.padded_put now ⟨fits.whole ▸ fits.head.append fits.tail, inner.padded⟩
  cuts := by
    intro r member
    rcases List.mem_append.1 member with first | others
    · exact fits.cut List.mem_cons_self r first
    · obtain ⟨x, gap, cut⟩ := inner.cuts r others
      exact ⟨x, List.mem_cons_of_mem _ gap, cut⟩
  spliced := by
    intro size rest inside
    rw [Block.chars, Utf8.size_append, Utf8.size_append] at inside
    have ahead : ∀ r ∈ rs, offset + Utf8.size gap + Utf8.size w.text ≤ r.span.start :=
      fun r member => (inner.cuts r member).le
    have tail := inner.spliced size rest (by omega)
    rw [← Utf8.length_encode w.text] at ahead tail
    have kept := spliceFrom_skip ahead tail
    have whole := fits.spliceFrom_put now (by omega)
      (fun r member => (Nat.le_add_right _ _).trans (ahead r member)) kept
    rw [fits.chars_put rfl, Block.body, Block.chars]
    simpa [Utf8.encode_append] using whole

omit fits in
/-- The whole text around the block is kept. -/
theorem splice_whole {block merged : Block} {specs : List SpecText} {rs : List Replacement}
    {front : List Char} (into : Merged (Utf8.size front) block specs rs merged)
    (rest : List Char) :
    splice (Utf8.encode (front ++ (block.chars ++ rest))) rs =
      .ok (Utf8.encode (front ++ (merged.chars ++ rest))) := by
  have size : Utf8.size front = 0 + (Utf8.encode front).length := by
    rw [Utf8.length_encode, Nat.zero_add]
  have inner := into.spliced (Utf8.encode (front ++ (block.chars ++ rest))).length
    (Utf8.encode rest) (by simp only [Utf8.length_encode, Utf8.size_append]; omega)
  have ahead : ∀ r ∈ rs, Utf8.size front ≤ r.span.start := fun r member => (into.cuts r member).le
  rw [size] at inner ahead
  have whole := spliceFrom_skip ahead inner
  rw [splice]
  simpa only [Utf8.encode_append] using whole

end Merged

end Marginalia.Edit
