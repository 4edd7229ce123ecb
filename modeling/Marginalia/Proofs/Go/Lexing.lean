/-
Module: Marginalia.Proofs.Go.Lexing
Purpose: The segments of a text, the lexemes that they are, and the words that the grammar sees.
Main exports:
  Segment, LexedBefore, Scanned, exists_scanned, Scanned.scan_eq, Word, words, words_append,
  signs_solid, numbered?_solid
-/
import Marginalia.Go.Grammar.SourceFile
import Marginalia.Proofs.Go.Lookahead
import Marginalia.Proofs.Text.Utf8

namespace Marginalia.Go

open Lexeme

/-! ### Segments -/

/-- A piece of a text: a lexeme, or a blank between lexemes, which has no token. -/
structure Segment where
  token : Option Token
  text : List Char
deriving Repr, DecidableEq

/-- The text that segments make up. -/
def textOf (segments : List Segment) : List Char :=
  segments.flatMap Segment.text

@[simp]
theorem textOf_nil : textOf [] = [] := rfl

@[simp]
theorem textOf_cons (s : Segment) (segments : List Segment) :
    textOf (s :: segments) = s.text ++ textOf segments := rfl

@[simp]
theorem textOf_append (first second : List Segment) :
    textOf (first ++ second) = textOf first ++ textOf second := by
  simp [textOf]

/-- A segment is what is found at the start of its text when `rest` follows it. -/
def Segment.Fits (rest : List Char) : Segment → Prop
  | ⟨_, []⟩ => False
  | ⟨none, c :: inner⟩ => inner = [] ∧ at? c rest = none
  | ⟨some token, c :: inner⟩ => at? c (inner ++ rest) = some (token, inner.length + 1)

theorem Segment.Fits.text_ne_nil {s : Segment} {rest : List Char} (fits : s.Fits rest) :
    s.text ≠ [] := by
  rintro empty
  obtain ⟨token, text⟩ := s
  subst empty
  exact fits

/-- Segments are what is found in their text when `rest` follows it. All that follows is in view, so
that no text is cut inside a longest match. -/
def LexedBefore (rest : List Char) : List Segment → Prop
  | [] => True
  | s :: segments => s.Fits (textOf segments ++ rest) ∧ LexedBefore rest segments

theorem lexedBefore_append {rest : List Char} {first second : List Segment} :
    LexedBefore rest (first ++ second) ↔
      LexedBefore (textOf second ++ rest) first ∧ LexedBefore rest second := by
  induction first with
  | nil => simp [LexedBefore]
  | cons s first ih => simp [LexedBefore, ih, and_assoc]

theorem LexedBefore.text_ne_nil {rest : List Char} {segments : List Segment}
    (lexed : LexedBefore rest segments) : ∀ s ∈ segments, s.text ≠ [] := by
  induction segments with
  | nil => simp
  | cons s segments ih =>
    rintro t (_ | ⟨_, member⟩)
    · exact lexed.1.text_ne_nil
    · exact ih lexed.2 t member

/-- Every text falls into segments. -/
theorem exists_lexedBefore (cs : List Char) : ∃ segments, textOf segments = cs ∧
    LexedBefore [] segments := by
  induction len : cs.length using Nat.strong_induction_on generalizing cs with
  | _ n ih =>
    rcases cs with _ | ⟨c, rest⟩
    · exact ⟨[], rfl, trivial⟩
    · cases found : at? c rest with
      | none =>
        obtain ⟨segments, rfl, lexed⟩ := ih rest.length (by simp [← len]) rest rfl
        exact ⟨⟨none, [c]⟩ :: segments, rfl, ⟨rfl, by simpa using found⟩, lexed⟩
      | some lexeme =>
        obtain ⟨token, n⟩ := lexeme
        obtain ⟨positive, within⟩ := at?_bound found
        -- the lexeme takes `n - 1` characters of what follows
        have short : (rest.take (n - 1)).length + 1 = n := by
          rw [List.length_take]
          omega
        obtain ⟨segments, whole, lexed⟩ :=
          ih (rest.drop (n - 1)).length (by simp [← len]) (rest.drop (n - 1)) rfl
        refine ⟨⟨some token, c :: rest.take (n - 1)⟩ :: segments, by simp [whole], ?_, lexed⟩
        simp only [Segment.Fits, List.append_nil, whole, List.take_append_drop, short, found]

/-! ### Places -/

/-- The place after a text. -/
def Point.after (p : Point) (cs : List Char) : Point :=
  cs.foldl Point.advance p

@[simp]
theorem Point.after_nil (p : Point) : p.after [] = p := rfl

@[simp]
theorem Point.after_cons (p : Point) (c : Char) (cs : List Char) :
    p.after (c :: cs) = (p.advance c).after cs := rfl

theorem Point.after_append (p : Point) (cs ds : List Char) :
    p.after (cs ++ ds) = (p.after cs).after ds := by
  simp [Point.after]

theorem Point.offset_after (p : Point) (cs : List Char) :
    (p.after cs).offset = p.offset + Utf8.size cs := by
  induction cs generalizing p with
  | nil => rfl
  | cons c cs ih => simp [ih, Point.advance, Nat.add_assoc]

/-- The lexemes of segments that start at a place. -/
def placed (p : Point) : List Segment → List Lexeme
  | [] => []
  | ⟨none, text⟩ :: rest => placed (p.after text) rest
  | ⟨some token, text⟩ :: rest =>
    { token, start := p, stop := p.after text } :: placed (p.after text) rest

theorem placed_append (p : Point) (first second : List Segment) :
    placed p (first ++ second) = placed p first ++ placed (p.after (textOf first)) second := by
  induction first generalizing p with
  | nil => rfl
  | cons s first ih =>
    obtain ⟨_ | token, text⟩ := s
    · simp [placed, ih, Point.after_append]
    · simp [placed, ih, Point.after_append]

theorem scanFrom_eq_drop (skip : Nat) (p : Point) (cs : List Char) :
    scanFrom skip p cs = scanFrom 0 (p.after (cs.take skip)) (cs.drop skip) := by
  induction skip generalizing p cs with
  | zero => simp
  | succ skip ih =>
    cases cs with
    | nil => simp [scanFrom]
    | cons c cs => simp [scanFrom, ih]

/-- Scanning gives the segments that are lexemes. -/
theorem LexedBefore.scanFrom_eq {segments : List Segment} (lexed : LexedBefore [] segments)
    (p : Point) : scanFrom 0 p (textOf segments) = placed p segments := by
  induction segments generalizing p with
  | nil => rfl
  | cons s segments ih =>
    obtain ⟨fits, tail⟩ := lexed
    obtain ⟨token, _ | ⟨c, inner⟩⟩ := s
    · exact absurd rfl fits.text_ne_nil
    · cases token with
      | none =>
        obtain ⟨rfl, absent⟩ := fits
        rw [List.append_nil] at absent
        simp [scanFrom, absent, placed, ih tail]
      | some token =>
        have found : at? c (inner ++ textOf segments) = some (token, inner.length + 1) := by
          simpa [Segment.Fits] using fits
        simp only [textOf_cons, List.cons_append, scanFrom, found, Nat.add_sub_cancel, placed]
        rw [scanFrom_eq_drop]
        simp [ih tail, Point.after]

/-- Segments are those of a whole source text: a byte order mark at its start counts as a blank. -/
def Scanned (segments : List Segment) : Prop :=
  (LexedBefore [] segments ∧ ∀ c ∈ (textOf segments).head?, c.toNat ≠ 0xFEFF) ∨
    ∃ c tail, segments = ⟨none, [c]⟩ :: tail ∧ c.toNat = 0xFEFF ∧ LexedBefore [] tail

theorem exists_scanned (cs : List Char) : ∃ segments, textOf segments = cs ∧ Scanned segments := by
  rcases cs with _ | ⟨c, cs⟩
  · exact ⟨[], rfl, .inl ⟨trivial, by simp⟩⟩
  · by_cases bom : c.toNat = 0xFEFF
    · obtain ⟨segments, rfl, lexed⟩ := exists_lexedBefore cs
      exact ⟨⟨none, [c]⟩ :: segments, rfl, .inr ⟨c, segments, rfl, bom, lexed⟩⟩
    · obtain ⟨segments, whole, lexed⟩ := exists_lexedBefore (c :: cs)
      refine ⟨segments, whole, .inl ⟨lexed, ?_⟩⟩
      rw [whole]
      simpa using bom

/-- Scanning a source text gives its segments that are lexemes. -/
theorem Scanned.scan_eq {segments : List Segment} (scanned : Scanned segments) :
    scan (textOf segments) = placed ⟨0, 0⟩ segments := by
  rcases scanned with ⟨lexed, unmarked⟩ | ⟨c, tail, rfl, bom, lexed⟩
  · rw [← lexed.scanFrom_eq ⟨0, 0⟩]
    cases text : textOf segments with
    | nil => rfl
    | cons c cs =>
      rw [scan, if_neg (unmarked c (by simp [text]))]
  · have wide : c = Char.ofNat 0xFEFF := by rw [← bom, Char.ofNat_toNat]
    subst wide
    exact lexed.scanFrom_eq ⟨3, 0⟩

theorem Scanned.text_ne_nil {segments : List Segment} (scanned : Scanned segments) :
    ∀ s ∈ segments, s.text ≠ [] := by
  rcases scanned with ⟨lexed, -⟩ | ⟨c, tail, rfl, -, lexed⟩
  · exact lexed.text_ne_nil
  · rintro s (_ | ⟨_, member⟩)
    · simp
    · exact lexed.text_ne_nil s member

/-! ### Words -/

/-- A lexeme that the grammar sees: its token, whether a newline stands before it, and its text. -/
structure Word where
  token : Token
  afterNewline : Bool
  text : List Char
deriving Repr, DecidableEq

/-- What the grammar sees of a word. -/
def Word.sign (w : Word) : Grammar.Sign := ⟨w.token, w.afterNewline⟩

/-- The token of a segment that the grammar sees. -/
def Segment.word? (s : Segment) : Option Token :=
  match s.token with
  | none => none
  | some .newline => none
  | some .comment => none
  | some token => some token

/-- Whether a segment is a newline. -/
def Segment.isNewline (s : Segment) : Bool := s.token == some .newline

/-- The words of segments; `newline` tells whether a newline has been passed. -/
def words (newline : Bool) : List Segment → List Word
  | [] => []
  | s :: rest =>
    match s.word? with
    | some token => ⟨token, newline, s.text⟩ :: words false rest
    | none => words (newline || s.isNewline) rest

/-- Whether a newline has been passed since the last word, after segments. -/
def lineBroken (newline : Bool) : List Segment → Bool
  | [] => newline
  | s :: rest =>
    if s.word?.isSome then lineBroken false rest else lineBroken (newline || s.isNewline) rest

theorem words_append (newline : Bool) (first second : List Segment) :
    words newline (first ++ second) =
      words newline first ++ words (lineBroken newline first) second := by
  induction first generalizing newline with
  | nil => rfl
  | cons s first ih =>
    cases word : s.word? with
    | none => simp [words, lineBroken, word, ih]
    | some token => simp [words, lineBroken, word, ih]

theorem lineBroken_append (newline : Bool) (first second : List Segment) :
    lineBroken newline (first ++ second) = lineBroken (lineBroken newline first) second := by
  induction first generalizing newline with
  | nil => rfl
  | cons s first ih =>
    rw [List.cons_append, lineBroken, lineBroken]
    split
    · exact ih false
    · exact ih _

theorem words_of_word {s : Segment} {token : Token} (word : s.word? = some token) (newline : Bool)
    (rest : List Segment) :
    words newline (s :: rest) = ⟨token, newline, s.text⟩ :: words false rest := by
  simp [words, word]

/-- Words as the grammar sees them where a newline has no meaning. -/
def unflag : List Word → List Word
  | [] => []
  | w :: rest => { w with afterNewline := false } :: rest

theorem unflag_words (newline newline' : Bool) (segments : List Segment) :
    unflag (words newline segments) = unflag (words newline' segments) := by
  induction segments generalizing newline newline' with
  | nil => rfl
  | cons s rest ih =>
    cases word : s.word? with
    | none => simpa [words, word] using ih _ _
    | some token => simp [words, word, unflag]

/-- A word stands at a segment of its own. -/
theorem exists_segment_of_words {newline : Bool} {segments : List Segment}
    {before after : List Word} {w : Word} (split : words newline segments = before ++ w :: after) :
    ∃ pre s post, segments = pre ++ s :: post ∧ words newline pre = before ∧
      s.word? = some w.token ∧ s.text = w.text ∧ lineBroken newline pre = w.afterNewline ∧
      words false post = after := by
  induction segments generalizing newline before with
  | nil => simp [words] at split
  | cons s segments ih =>
    cases word : s.word? with
    | none =>
      rw [words, word] at split
      obtain ⟨pre, t, post, rfl, rfl, here, text, broken, behind⟩ := ih split
      refine ⟨s :: pre, t, post, rfl, ?_, here, text, ?_, behind⟩
      · simp [words, word]
      · simpa [lineBroken, word] using broken
    | some token =>
      rw [words_of_word word] at split
      rcases before with _ | ⟨b, before⟩
      · simp only [List.nil_append, List.cons.injEq] at split
        obtain ⟨rfl, rfl⟩ := split
        exact ⟨[], s, segments, rfl, rfl, word, rfl, rfl, rfl⟩
      · simp only [List.cons_append, List.cons.injEq] at split
        obtain ⟨pre, t, post, rfl, same, here, text, broken, behind⟩ := ih split.2
        refine ⟨s :: pre, t, post, rfl, ?_, here, text, ?_, behind⟩
        · rw [words_of_word word, same, split.1]
        · simpa [lineBroken, word] using broken

/-! ### Words and lexemes -/

theorem Segment.word?_eq_some {s : Segment} {token : Token} (word : s.word? = some token) :
    s.token = some token ∧ token ≠ .newline ∧ token ≠ .comment := by
  obtain ⟨_ | t, text⟩ := s
  · cases word
  · cases t <;> simp_all [Segment.word?] <;> subst word <;> simp

theorem solid_of_gap {s : Segment} (gap : s.word? = none) (newline : Bool) (p : Point)
    (rest : List Segment) :
    solid newline (placed p (s :: rest)) =
      solid (newline || s.isNewline) (placed (p.after s.text) rest) := by
  obtain ⟨_ | t, text⟩ := s
  · simp [placed, Segment.isNewline]
  · have kind : t = .newline ∨ t = .comment := by
      cases t <;> simp_all [Segment.word?]
    rcases kind with rfl | rfl
    · simp [placed, solid, Segment.isNewline]
    · have other : (some Token.comment == some Token.newline) = false := rfl
      simp only [placed, solid, Segment.isNewline, other, Bool.or_false]

theorem solid_of_word {s : Segment} {token : Token} (word : s.word? = some token) (newline : Bool)
    (p : Point) (rest : List Segment) :
    solid newline (placed p (s :: rest)) =
      (⟨token, p, p.after s.text⟩, newline) :: solid false (placed (p.after s.text) rest) := by
  obtain ⟨here, notNewline, notComment⟩ := Segment.word?_eq_some word
  obtain ⟨t, text⟩ := s
  cases here
  cases token <;> simp_all [placed, solid]

/-- The grammar is run on the signs of the words. -/
theorem signs_solid (newline : Bool) (p : Point) (segments : List Segment) :
    ((solid newline (placed p segments)).map fun (l, newline) =>
      (⟨l.token, newline⟩ : Grammar.Sign)) = (words newline segments).map Word.sign := by
  induction segments generalizing newline p with
  | nil => rfl
  | cons s segments ih =>
    cases word : s.word? with
    | none => simp [solid_of_gap word, words, word, ih]
    | some token => simp [solid_of_word word, words_of_word word, ih, Word.sign]

theorem length_solid (newline : Bool) (p : Point) (segments : List Segment) :
    (solid newline (placed p segments)).length = (words newline segments).length := by
  have same := congrArg List.length (signs_solid newline p segments)
  simpa using same

theorem solid_append (newline : Bool) (p : Point) (first second : List Segment) :
    solid newline (placed p (first ++ second)) =
      solid newline (placed p first) ++
        solid (lineBroken newline first) (placed (p.after (textOf first)) second) := by
  induction first generalizing newline p with
  | nil => rfl
  | cons s first ih =>
    cases word : s.word? with
    | none =>
      rw [List.cons_append, solid_of_gap word, solid_of_gap word, ih]
      simp [lineBroken, word, Point.after_append]
    | some token =>
      rw [List.cons_append, solid_of_word word, solid_of_word word, ih]
      simp [lineBroken, word, Point.after_append]

/-- The lexeme with the number of a word is the one at its segment. -/
theorem numbered?_solid (pre post : List Segment) {s : Segment} {token : Token}
    (word : s.word? = some token) :
    Lexeme.numbered? ((solid false (placed ⟨0, 0⟩ (pre ++ s :: post))).map (·.1))
      ((words false post).length + 1) =
    some ⟨token, Point.after ⟨0, 0⟩ (textOf pre), Point.after ⟨0, 0⟩ (textOf pre ++ s.text)⟩ := by
  rw [Lexeme.numbered?, solid_append, solid_of_word word, List.map_append, List.map_cons]
  simp only [List.length_append, List.length_cons, List.length_map, length_solid]
  rw [Nat.add_sub_cancel, List.getElem?_append_right (by simp [length_solid])]
  simp [length_solid, Point.after_append]

end Marginalia.Go
