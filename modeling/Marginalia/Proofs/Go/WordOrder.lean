/-
Module: Marginalia.Proofs.Go.WordOrder
Purpose: Lexemes stand one behind the other in their text, and words at the places of their numbers.
Main exports:
  Lined, lined_placed, Places, Lined.places, Lined.comment_apart, text_words_ne_empty
-/
import Marginalia.Proofs.Go.Parse

namespace Marginalia.Go

/-! ### Lexemes in order -/

/-- Lexemes between two offsets, none of them empty and each behind the one before. -/
structure Lined (lo hi : Nat) (ls : List Lexeme) : Prop where
  within : ∀ l ∈ ls, lo ≤ l.start.offset ∧ l.start.offset < l.stop.offset ∧ l.stop.offset ≤ hi
  ordered : ls.Pairwise fun a b => a.stop.offset ≤ b.start.offset

namespace Lined

variable {lo hi : Nat} {ls part : List Lexeme}

theorem sublist (lined : Lined lo hi ls) (sub : part.Sublist ls) : Lined lo hi part :=
  ⟨fun l member => lined.within l (sub.subset member), lined.ordered.sublist sub⟩

/-- Lexemes that lie between other offsets too. -/
theorem between {lo' hi' : Nat} (lined : Lined lo hi ls) (left : ∀ l ∈ ls, lo' ≤ l.start.offset)
    (right : ∀ l ∈ ls, l.stop.offset ≤ hi') : Lined lo' hi' ls :=
  ⟨fun l member => ⟨left l member, (lined.within l member).2.1, right l member⟩, lined.ordered⟩

/-- None ends behind the last one. -/
theorem stop_le_last (lined : Lined lo hi ls) (fallback : Point) :
    ∀ l ∈ ls, l.stop.offset ≤ ((ls.getLast?.map (·.stop)).getD fallback).offset := by
  rcases List.eq_nil_or_concat ls with rfl | ⟨front, last, rfl⟩
  · simp
  · intro l member
    rw [List.concat_eq_append] at member lined ⊢
    rw [List.getLast?_concat, Option.map_some, Option.getD_some]
    have final := lined.within last (by simp)
    rcases List.mem_append.1 member with before | here
    · have := (List.pairwise_append.1 lined.ordered).2.2 l before last (by simp)
      omega
    · rw [List.mem_singleton.1 here]

theorem last_le (lined : Lined lo hi ls) (fallback : Point) (le : fallback.offset ≤ hi) :
    ((ls.getLast?.map (·.stop)).getD fallback).offset ≤ hi := by
  cases last : ls.getLast? with
  | none => exact le
  | some l => exact (lined.within l (List.mem_of_getLast? last)).2.2

/-- Two lexemes do not overlap. -/
theorem apart (lined : Lined lo hi ls) {a b : Lexeme} (first : a ∈ ls) (second : b ∈ ls)
    (differ : a ≠ b) : a.stop.offset ≤ b.start.offset ∨ b.stop.offset ≤ a.start.offset := by
  have symm : Std.Symm fun a b : Lexeme =>
      a.stop.offset ≤ b.start.offset ∨ b.stop.offset ≤ a.start.offset := ⟨fun _ _ => Or.symm⟩
  have disjoint : ls.Pairwise fun a b : Lexeme =>
      a.stop.offset ≤ b.start.offset ∨ b.stop.offset ≤ a.start.offset := lined.ordered.imp Or.inl
  exact disjoint.forall first second differ

end Lined

/-- The lexemes of segments with a text stand in order. -/
theorem lined_placed {segments : List Segment} (filled : ∀ s ∈ segments, s.text ≠ []) (p : Point) :
    Lined p.offset (p.after (textOf segments)).offset (placed p segments) := by
  induction segments generalizing p with
  | nil => exact ⟨by simp [placed], .nil⟩
  | cons s segments ih =>
    obtain ⟨first, others⟩ := List.forall_mem_cons.1 filled
    have tail := ih others (p.after s.text)
    have forward : p.offset < (p.after s.text).offset := by
      rw [Point.offset_after]
      exact Nat.lt_add_of_pos_right (Utf8.size_pos first)
    rw [← Point.after_append, ← textOf_cons] at tail
    have wider : Lined p.offset (p.after (textOf (s :: segments))).offset
        (placed (p.after s.text) segments) := by
      refine tail.between (fun l member => ?_) fun l member => (tail.within l member).2.2
      exact forward.le.trans (tail.within l member).1
    obtain ⟨_ | token, text⟩ := s
    · exact wider
    · refine ⟨List.forall_mem_cons.2 ⟨⟨le_rfl, forward, ?_⟩, wider.within⟩,
        List.pairwise_cons.2 ⟨fun l member => (tail.within l member).1, tail.ordered⟩⟩
      rw [textOf_cons, Point.after_append, Point.offset_after (p.after text)]
      exact Nat.le_add_right _ _

/-- The lexemes that the grammar sees. -/
theorem map_solid (newline : Bool) (ls : List Lexeme) : (Lexeme.solid newline ls).map (·.1) =
    ls.filter fun l => l.token != .newline && l.token != .comment := by
  induction ls generalizing newline with
  | nil => rfl
  | cons l ls ih =>
    rw [Lexeme.solid, List.filter_cons]
    split
    · rename_i token
      simp [token, ih]
    · rename_i token
      simp [token, ih]
    · rename_i notNewline notComment
      have solid : (l.token != .newline && l.token != .comment) = true := by
        simpa using ⟨notNewline, notComment⟩
      rw [if_pos solid, List.map_cons, ih]

/-! ### Places of numbers -/

/-- Places between two offsets for the numbers up to `count`. Numbers count from the end, so that
greater ones stand before smaller ones. -/
structure Places (lo hi count : Nat) (start stop : Nat → Point) : Prop where
  within : ∀ n, 0 < n → n ≤ count →
    lo ≤ (start n).offset ∧ (start n).offset < (stop n).offset ∧ (stop n).offset ≤ hi
  ordered : ∀ m n, 0 < m → m < n → n ≤ count → (stop n).offset ≤ (start m).offset

namespace Places

variable {lo hi count : Nat} {start stop : Nat → Point} {m n : Nat}

theorem start_le (places : Places lo hi count start stop) (positive : 0 < m) (le : m ≤ n)
    (last : n ≤ count) : (start n).offset ≤ (start m).offset := by
  rcases le.eq_or_lt with rfl | less
  · exact le_rfl
  · exact (places.within n (by omega) last).2.1.le.trans (places.ordered m n positive less last)

theorem stop_le (places : Places lo hi count start stop) (positive : 0 < m) (le : m ≤ n)
    (last : n ≤ count) : (stop n).offset ≤ (stop m).offset := by
  rcases le.eq_or_lt with rfl | less
  · exact le_rfl
  · exact (places.ordered m n positive less last).trans
      (places.within m positive (by omega)).2.1.le

theorem start_lt_stop (places : Places lo hi count start stop) (positive : 0 < m) (le : m ≤ n)
    (last : n ≤ count) : (start n).offset < (stop m).offset :=
  (places.within n (by omega) last).2.1.trans_le (places.stop_le positive le last)

end Places

/-- The lexemes of the words of segments. -/
def wordLexemes (segments : List Segment) : List Lexeme :=
  (Lexeme.solid false (placed ⟨0, 0⟩ segments)).map (·.1)

/-- The numbers of words are places in the list of their lexemes, from the back. -/
theorem exists_wordLexeme {segments : List Segment} {n : Nat} (positive : 0 < n)
    (le : n ≤ (words false segments).length) :
    ∃ i, ∃ inside : i < (wordLexemes segments).length,
      i + n = (wordLexemes segments).length ∧
      startOf segments n = (wordLexemes segments)[i].start ∧
      stopOf segments n = (wordLexemes segments)[i].stop := by
  have length : (wordLexemes segments).length = (words false segments).length := by
    rw [wordLexemes, List.length_map, length_solid]
  have inside : (wordLexemes segments).length - n < (wordLexemes segments).length := by omega
  have found : wordLexeme? segments n =
      some (wordLexemes segments)[(wordLexemes segments).length - n] :=
    List.getElem?_eq_getElem inside
  refine ⟨_, inside, by omega, ?_, ?_⟩
  · rw [startOf, found]
    rfl
  · rw [stopOf, found]
    rfl

theorem wordLexemes_sublist (segments : List Segment) :
    (wordLexemes segments).Sublist (placed ⟨0, 0⟩ segments) := by
  rw [wordLexemes, map_solid]
  exact List.filter_sublist

/-- The words of segments are in their places. -/
theorem Lined.places {lo hi : Nat} {segments : List Segment}
    (lined : Lined lo hi (placed ⟨0, 0⟩ segments)) :
    Places lo hi (words false segments).length (startOf segments) (stopOf segments) := by
  have row := lined.sublist (wordLexemes_sublist segments)
  constructor
  · intro n positive le
    obtain ⟨i, inside, -, start, stop⟩ := exists_wordLexeme positive le
    rw [start, stop]
    exact row.within _ (List.getElem_mem inside)
  · intro m n positive less le
    obtain ⟨i, inside, here, start, -⟩ := exists_wordLexeme positive (less.le.trans le)
    obtain ⟨j, inside', there, -, stop⟩ := exists_wordLexeme (positive.trans less) le
    rw [start, stop]
    exact List.pairwise_iff_getElem.1 row.ordered j i inside' inside (by omega)

/-- A comment does not overlap the words. -/
theorem Lined.comment_apart {lo hi : Nat} {segments : List Segment}
    (lined : Lined lo hi (placed ⟨0, 0⟩ segments)) {l : Lexeme}
    (member : l ∈ placed ⟨0, 0⟩ segments) (comment : l.token = .comment) {n : Nat}
    (positive : 0 < n) (le : n ≤ (words false segments).length) :
    l.stop.offset ≤ (startOf segments n).offset ∨ (stopOf segments n).offset ≤ l.start.offset := by
  obtain ⟨i, inside, -, start, stop⟩ := exists_wordLexeme positive le
  have word := List.getElem_mem inside
  rw [start, stop]
  refine lined.apart member ((wordLexemes_sublist segments).subset word) fun same => ?_
  rw [← same, wordLexemes, map_solid] at word
  simp [comment] at word

/-! ### Texts of words -/

/-- A word starts where a part of the text ends, and stops where one does. -/
theorem exists_cuts {segments : List Segment} {n : Nat} (positive : 0 < n)
    (le : n ≤ (words false segments).length) :
    (∃ front back, textOf segments = front ++ back ∧
      (startOf segments n).offset = Utf8.size front) ∧
    ∃ front back, textOf segments = front ++ back ∧
      (stopOf segments n).offset = Utf8.size front := by
  have inside : (words false segments).length - n < (words false segments).length := by omega
  have split := List.take_append_drop ((words false segments).length - n) (words false segments)
  rw [List.drop_eq_getElem_cons inside] at split
  obtain ⟨pre, s, post, place⟩ := exists_wordAt split.symm
  have number : ((words false segments).drop
      ((words false segments).length - n + 1)).length + 1 = n := by
    rw [List.length_drop]
    omega
  have start := place.start
  have stop := place.stop
  have whole : textOf segments = textOf pre ++ (s.text ++ textOf post) := by
    rw [place.whole, textOf_append, textOf_cons]
  rw [number] at start stop
  rw [start, stop, Point.offset_after, Point.offset_after, Nat.zero_add, Nat.zero_add]
  exact ⟨⟨_, _, whole, rfl⟩, ⟨_, _, whole.trans (List.append_assoc _ _ _).symm, rfl⟩⟩

/-- From a word to one behind it there is some text. -/
theorem text_words_ne_empty {segments : List Segment} (scanned : Scanned segments) {m n : Nat}
    (positive : 0 < m) (le : m ≤ n) (last : n ≤ (words false segments).length) :
    Span.text ⟨(startOf segments n).offset, (stopOf segments m).offset⟩
      (String.ofList (textOf segments)) ≠ "" := by
  have less := (lined_placed scanned.text_ne_nil ⟨0, 0⟩).places.start_lt_stop positive le last
  obtain ⟨front, rest, cut, start⟩ := (exists_cuts (positive.trans_le le) last).1
  obtain ⟨front', rest', cut', stop⟩ := (exists_cuts positive (le.trans last)).2
  obtain ⟨middle, rfl, rfl⟩ := exists_middle_of_size_le (cut.symm.trans cut') (by omega)
  have slice : Span.slice? ⟨(startOf segments n).offset, (stopOf segments m).offset⟩
      (String.ofList (textOf segments)).toList = some middle := by
    rw [Span.slice?_eq_some_iff, String.toList_ofList]
    exact ⟨front, rest', cut, start, by rw [stop, Utf8.size_append]⟩
  rw [Utf8.size_append] at stop
  have filled : middle ≠ [] := by
    rintro rfl
    rw [Utf8.size_nil] at stop
    omega
  rw [Span.text, slice]
  simpa using filled

end Marginalia.Go
