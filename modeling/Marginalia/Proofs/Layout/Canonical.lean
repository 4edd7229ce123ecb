/-
Module: Marginalia.Proofs.Layout.Canonical
Purpose: A source text in its canonical layout has the words that it had.
Main exports:
  guarded_spans, isSolid_of_mem_spans, exists_canonical
-/
import Marginalia.Proofs.Layout.Words

namespace Marginalia.Layout

open Go
open Text (isBlank)

/-! ### Rows -/

theorem row_after (p : Point) (cs : List Char) : (p.after cs).row = p.row + cs.count '\n' := by
  induction cs generalizing p with
  | nil => rfl
  | cons c cs ih =>
    rw [Point.after_cons, ih, Point.advance, List.count_cons]
    by_cases newline : c = '\n'
    · simp [newline]
      omega
    · simp [newline]

theorem row_after_eq_iff (p : Point) (cs : List Char) : p.row = (p.after cs).row ↔ '\n' ∉ cs := by
  rw [row_after, ← List.count_eq_zero]
  omega

/-! ### Protected spans -/

/-- The span that protects a lexeme, if it spans lines. -/
def spanOf? (l : Lexeme) : Option Span :=
  if spansLines (some l.token) ∧ l.start.row ≠ l.stop.row then some ⟨l.start.offset, l.stop.offset⟩
  else none

theorem protectedSpans_eq (source : List Char) :
    protectedSpans source = (Lexeme.scan source).filterMap spanOf? := by
  unfold protectedSpans
  congr 1
  funext l
  obtain ⟨token, start, stop⟩ := l
  cases token <;> simp [spanOf?, spansLines]

/-- The spans that protect segments from an offset on. -/
def spans (p : Point) (segments : List Segment) : List Span :=
  (placed p segments).filterMap spanOf?

theorem spans_append (p : Point) (first second : List Segment) :
    spans p (first ++ second) = spans p first ++ spans (p.after (textOf first)) second := by
  rw [spans, placed_append, List.filterMap_append]
  rfl

theorem spans_cons (p : Point) (s : Segment) (rest : List Segment) :
    spans p (s :: rest) = spans p [s] ++ spans (p.after s.text) rest := by
  have split := spans_append p [s] rest
  simpa using split

theorem spans_singleton (p : Point) (s : Segment) :
    spans p [s] =
      if spansLines s.token ∧ '\n' ∈ s.text then [⟨p.offset, p.offset + Utf8.size s.text⟩]
      else [] := by
  obtain ⟨_ | token, text⟩ := s
  · simp [spans, placed, spansLines]
  · by_cases split : spansLines (some token) ∧ '\n' ∈ text
    · have apart : p.row ≠ (p.after text).row := by
        rw [Ne, row_after_eq_iff, not_not]
        exact split.2
      simp [spans, placed, spanOf?, split, apart, Point.offset_after]
    · have unspanned : ¬ (spansLines (some token) ∧ p.row ≠ (p.after text).row) := by
        rwa [Ne, row_after_eq_iff, not_not]
      rw [if_neg split]
      simp only [spans, placed, spanOf?, List.filterMap_cons, if_neg unspanned, List.filterMap_nil]

/-- A span lies within the text of the segments. -/
theorem span_bounds {p : Point} {segments : List Segment} {s : Span}
    (member : s ∈ spans p segments) :
    p.offset ≤ s.start ∧ s.stop ≤ p.offset + Utf8.size (textOf segments) := by
  induction segments generalizing p with
  | nil => cases member
  | cons t rest ih =>
    rw [spans_cons, List.mem_append, spans_singleton] at member
    rw [textOf_cons, Utf8.size_append]
    rcases member with here | later
    · split at here
      · cases List.mem_singleton.1 here
        simp only
        omega
      · cases here
    · have := ih later
      rw [Point.offset_after] at this
      omega

theorem inside_append (first second : List Span) (offset : Nat) :
    inside (first ++ second) offset = (inside first offset || inside second offset) := by
  simp [inside]

theorem inside_eq_false {spans : List Span} {offset : Nat}
    (apart : ∀ s ∈ spans, s.stop ≤ offset ∨ offset ≤ s.start) : inside spans offset = false := by
  rw [inside, List.any_eq_false]
  intro s member
  simp only [Bool.and_eq_true, decide_eq_true_eq, not_and]
  have := apart s member
  omega

/-- A text that spans lines has no blank at either end. -/
theorem Clean.solid_ends {s : Segment} {rest : List Segment} (clean : Clean (s :: rest))
    (lines : spansLines s.token) (member : '\n' ∈ s.text) :
    (∀ c ∈ s.text.head?, isBlank c = false) ∧ ∀ c ∈ s.text.getLast?, isBlank c = false := by
  rcases clean.cases_head with ⟨c, rfl, -⟩ | ⟨token, known, shape⟩
  · cases lines
  obtain ⟨_, text⟩ := s
  cases known
  cases shape with
  | newline => cases lines
  | line within =>
    simp only [List.mem_cons, within, or_false] at member
    rcases member with wrong | wrong <;> cases wrong
  | closed nonempty begins ends => exact ⟨begins, ends⟩

/-- Exactly the newlines in comments and string literals are protected. -/
theorem guarded_spans (pre : List Segment) {segments : List Segment} (clean : Clean segments) :
    Guarded (spans ⟨0, 0⟩ (pre ++ segments)) (Utf8.size (textOf pre)) segments := by
  induction segments generalizing pre with
  | nil => trivial
  | cons s rest ih =>
    refine ⟨?_, ?_⟩
    · intro before after same
      have long : Utf8.size s.text = Utf8.size before + 1 + Utf8.size after := by
        rw [same, Utf8.size_append, Utf8.size_cons, ← Nat.add_assoc]
        rfl
      have earlier :
          inside (spans ⟨0, 0⟩ pre) (Utf8.size (textOf pre) + Utf8.size before) = false :=
        inside_eq_false fun t member => by
          have := span_bounds member
          simp only at this
          omega
      have later : inside (spans (Point.after ⟨0, 0⟩ (textOf pre ++ s.text)) rest)
          (Utf8.size (textOf pre) + Utf8.size before) = false :=
        inside_eq_false fun t member => by
          have := span_bounds member
          simp only [Point.offset_after, Utf8.size_append] at this
          omega
      rw [spans_append, spans_cons, ← Point.after_append, inside_append, inside_append, earlier,
        later, Bool.false_or, Bool.or_false, spans_singleton]
      by_cases lines : spansLines s.token = true
      · have nonempty : before ≠ [] := by
          rintro rfl
          have solid := (clean.solid_ends lines (by simp [same])).1 '\n' (by simp [same])
          exact absurd solid (by decide)
        have := Utf8.size_pos nonempty
        rw [if_pos ⟨lines, by simp [same]⟩, lines]
        simp only [inside, List.any_cons, List.any_nil, Bool.or_false, Point.offset_after,
          Bool.and_eq_true, decide_eq_true_eq]
        omega
      · rw [if_neg (by simp [lines])]
        simpa [inside] using (Bool.not_eq_true _).symm ▸ lines
    · have next := ih (pre ++ [s]) clean.tail
      simpa [Utf8.size_append] using next

/-- A protected span starts and ends with a character that is no blank. -/
theorem isSolid_of_mem_spans {pre : List Char} {p : Point} {segments : List Segment}
    (clean : Clean segments) (place : p.offset = Utf8.size pre) :
    ∀ s ∈ spans p segments, isSolid (pre ++ textOf segments) s := by
  induction segments generalizing pre p with
  | nil =>
    intro s member
    cases member
  | cons t rest ih =>
    intro s member
    rw [spans_cons, List.mem_append, spans_singleton] at member
    rcases member with here | later
    · split at here
      · rename_i lines
        cases List.mem_singleton.1 here
        have nonempty : t.text ≠ [] := clean.lexed.1.text_ne_nil
        obtain ⟨first, last⟩ := clean.solid_ends lines.1 lines.2
        obtain ⟨c, inner, begins⟩ := List.exists_cons_of_ne_nil nonempty
        obtain ⟨front, d, ends⟩ := (List.eq_nil_or_concat' t.text).resolve_left nonempty
        have stands : Stands (pre ++ textOf (t :: rest))
            ⟨p.offset, p.offset + Utf8.size t.text⟩ pre t.text (textOf rest) := {
          whole := by rw [textOf_cons]
          start := place
          stop := by rw [place]
          first := ⟨c, inner, begins, first c (by simp [begins])⟩
          last := ⟨front, d, ends, last d (by simp [ends])⟩ }
        exact stands.isSolid
      · cases here
    · have place' : (p.after t.text).offset = Utf8.size (pre ++ t.text) := by
        rw [Point.offset_after, Utf8.size_append, place]
      have solid := ih clean.tail place' s later
      rwa [List.append_assoc, ← textOf_cons] at solid

/-! ### The canonical layout -/

theorem Clean.scanned {segments : List Segment} (clean : Clean segments) : Scanned segments := by
  refine .inl ⟨clean.lexed, ?_⟩
  intro c head marked
  rcases segments with _ | ⟨s, rest⟩
  · cases head
  · obtain rfl : c = Char.ofNat 0xFEFF := by rw [← marked, Char.ofNat_toNat]
    have fits := clean.lexed.1
    have real := clean.real s List.mem_cons_self
    obtain ⟨token, _ | ⟨d, text⟩⟩ := s
    · exact fits
    · cases head
      cases token with
      | none =>
        have absent := fits.2
        rw [Lexeme.at?_byteOrderMark] at absent
        cases absent
      | some token =>
        have found : Lexeme.at? (Char.ofNat 0xFEFF) _ = some (token, _) := fits
        rw [Lexeme.at?_byteOrderMark, Option.some.injEq, Prod.mk.injEq] at found
        exact real (congrArg some found.1.symm)

/-- The layout of a text without stray characters has the same words. -/
theorem exists_canonical {segments : List Segment} (scanned : Scanned segments)
    (real : ∀ s ∈ segments, s.token ≠ some .stray) :
    ∃ laid, Scanned laid ∧ (∀ s ∈ laid, s.token ≠ some .stray) ∧
      textOf laid = canonicalize (protectedSpans (textOf segments)) (textOf segments) ∧
      unflag (words false laid) = unflag (words false segments) := by
  have same : protectedSpans (textOf segments) = spans ⟨0, 0⟩ segments := by
    rw [protectedSpans_eq, scanned.scan_eq]
    rfl
  rw [same]
  rcases scanned with ⟨lexed, -⟩ | ⟨c, tail, rfl, bom, lexed⟩
  · have clean : Clean segments := ⟨lexed, real⟩
    have guarded : Guarded (spans ⟨0, 0⟩ segments) 0 segments := guarded_spans [] clean
    have solid := isSolid_of_mem_spans clean (show (Point.mk 0 0).offset = Utf8.size [] from rfl)
    rw [List.nil_append] at solid
    have laid : Clean (Held.start.tidy segments) :=
      ⟨Held.lexedBefore_tidy clean guarded (by simp [Held.start]), Held.real_tidy real _⟩
    refine ⟨_, laid.scanned, laid.real, ?_, Held.unflag_words_tidy clean rfl false⟩
    rw [canonicalize_eq_lay solid, Held.lay_eq_textOf_tidy clean guarded]
  · -- a byte order mark stays at the start
    have clean : Clean tail := ⟨lexed, fun s member => real s (List.mem_cons_of_mem _ member)⟩
    have guarded : Guarded (spans ⟨0, 0⟩ (⟨none, [c]⟩ :: tail)) (0 + c.utf8Size) tail := by
      have behind := guarded_spans [⟨none, [c]⟩] clean
      simpa [textOf] using behind
    have solid : ∀ s ∈ spans ⟨0, 0⟩ (⟨none, [c]⟩ :: tail), isSolid ([c] ++ textOf tail) s := by
      refine isSolid_of_mem_spans clean ?_
      rw [Point.offset_after, Nat.zero_add]
    have printed : isBlank c = false := by
      obtain rfl : c = Char.ofNat 0xFEFF := by rw [← bom, Char.ofNat_toNat]
      decide
    refine ⟨⟨none, [c]⟩ :: Held.clear.tidy tail, ?_, ?_, ?_, ?_⟩
    · exact .inr ⟨c, _, rfl, bom, Held.lexedBefore_tidy clean guarded (by simp [Held.clear])⟩
    · rintro s (_ | ⟨_, member⟩)
      · simp
      · exact Held.real_tidy clean.real _ s member
    · rw [textOf_cons, textOf_cons, canonicalize_eq_lay solid, List.singleton_append,
        List.singleton_append, Held.lay_prints (.inl printed),
        Held.lay_eq_textOf_tidy clean guarded]
      rfl
    · have gapless : Segment.word? ⟨none, [c]⟩ = none := rfl
      rw [words, words, gapless]
      simp only
      rw [Held.words_tidy clean rfl]
      simp [Held.clear]

end Marginalia.Layout
