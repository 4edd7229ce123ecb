/-
Module: Marginalia.Proofs.Go.Stability
Purpose: Headers are lexed the same way whatever follows them.
Main exports:
  isHeaderToken, Segment.Calm, Segment.Bounded, LexedBefore.change, Scanned.change
-/
import Marginalia.Proofs.Go.Shape
import Marginalia.Proofs.Go.Lexing

namespace Marginalia.Go

open Lexeme

/-! ### Single marks -/

namespace Lexeme

theorem markAt?_eq_some {c : Char} {rest : List Char} {m : Mark} {n : Nat}
    (found : markAt? (c :: rest) = some (m, n)) :
    ∃ spelled, (spelled, m) ∈ Mark.spellings ∧ spelled <+: c :: rest ∧ spelled.length = n := by
  obtain ⟨⟨spelled, m'⟩, first, same⟩ := Option.map_eq_some_iff.1 found
  cases same
  exact ⟨spelled, List.mem_of_find?_eq_some first, by simpa using List.find?_some first, rfl⟩

/-- A mark that is a character alone. -/
theorem markAt?_single {c d : Char} {inner rest : List Char} {m : Mark}
    (spelling : ∀ x ∈ Mark.spellings, x.2 = m → x.1 = [d])
    (found : markAt? (c :: (inner ++ rest)) = some (m, inner.length + 1)) : c = d ∧ inner = [] := by
  obtain ⟨spelled, member, lead, long⟩ := markAt?_eq_some found
  obtain rfl : spelled = [d] := spelling _ member rfl
  rw [List.length_singleton, Nat.right_eq_add, List.length_eq_zero_iff] at long
  rw [List.cons_prefix_cons] at lead
  exact ⟨lead.1.symm, long⟩

/-- What starts with a comment or a literal in quotes is that. -/
theorem kind_of_special? {c : Char} {rest : List Char} {token : Token} {n : Nat}
    (found : special? c rest = some (token, n)) :
    token = .comment ∨ token = .quoted ∨ token = .raw ∨ token = .rune := by
  unfold special? at found
  split at found
  · cases found
    exact .inl rfl
  · obtain ⟨_, -, same⟩ := Option.map_eq_some_iff.1 found
    cases same
    exact .inl rfl
  · obtain ⟨_, -, same⟩ := Option.map_eq_some_iff.1 found
    cases same
    exact .inr (.inl rfl)
  · obtain ⟨_, -, same⟩ := Option.map_eq_some_iff.1 found
    cases same
    exact .inr (.inr (.inl rfl))
  · obtain ⟨_, -, same⟩ := Option.map_eq_some_iff.1 found
    cases same
    exact .inr (.inr (.inr rfl))
  · cases found

/-- What is a mark is no number and no text in quotes. -/
theorem markAt?_of_at? {c : Char} {rest : List Char} {m : Mark} {n : Nat}
    (found : at? c rest = some (.mark m, n)) :
    markAt? (c :: rest) = some (m, n) := by
  cases found_of_at? found with
  | newline _ kind => cases kind
  | name _ kind => cases kind
  | number _ _ kind => cases kind
  | special found => simpa using kind_of_special? found
  | mark _ _ _ marked kind =>
    cases kind
    exact marked
  | stray kind => cases kind

/-- Marks of one character that no longer mark starts with. -/
def singles : List (Char × Mark) :=
  [('(', .parenL), (')', .parenR), (';', .semicolon), ('\x00', .nul)]

theorem at?_single {d : Char} {m : Mark} (single : (d, m) ∈ singles) (rest : List Char) :
    at? d rest = some (.mark m, 1) := by
  simp only [singles, List.mem_cons, Prod.mk.injEq, List.not_mem_nil, or_false] at single
  rcases single with ⟨rfl, rfl⟩ | ⟨rfl, rfl⟩ | ⟨rfl, rfl⟩ | ⟨rfl, rfl⟩
  all_goals
    rw [at?_symbol (by decide +kernel)]
    rfl

theorem numberAt_dot (rest : List Char) :
    numberAt '.' rest = 0 ↔ ∀ c ∈ rest.head?, c.isDigit = false := by
  have whole : digitRun Char.isDigit ('.' :: rest) = 0 := digitRun_of_not (by decide) rest
  have short : numberAt '.' rest = 0 ↔ digitRun Char.isDigit rest = 0 := by
    by_cases digitless : digitRun Char.isDigit rest = 0
    · simp [numberAt, numberLength, integerLengths, decimalFloatLengths, hexFloatLengths, whole,
        digitless]
    · have long : numberAt '.' rest ≠ 0 := by
        simp [numberAt, numberLength, integerLengths, decimalFloatLengths, hexFloatLengths, whole,
          digitless]
      exact ⟨fun zero => absurd zero long, fun zero => absurd zero digitless⟩
  rw [short]
  rcases rest with _ | ⟨c, rest⟩
  · simp [digitRun]
  · by_cases digit : c.isDigit
    · have positive : digitRun Char.isDigit (c :: rest) ≠ 0 := by
        unfold digitRun
        split <;> grind
      simp [digit, positive]
    · rw [Bool.not_eq_true] at digit
      simp [digitRun_of_not digit, digit]

theorem markOrStray_dot (rest : List Char) :
    markOrStray ('.' :: rest) =
      if ['.', '.'] <+: rest then (.mark .ellipsis, 3) else (.mark .dot, 1) := by
  by_cases dots : ['.', '.'] <+: rest
  · rw [if_pos dots]
    obtain ⟨tail, rfl⟩ := dots
    rfl
  · rw [if_neg dots]
    have other : ['.', '.'].isPrefixOf rest = false := by
      rw [← Bool.not_eq_true, List.isPrefixOf_iff_prefix]
      exact dots
    simp [markOrStray, markAt?, Mark.spellings, List.isPrefixOf_cons_cons, other]

/-- A dot is a mark unless a digit or two more dots follow. -/
theorem at?_dot (rest : List Char) :
    at? '.' rest = some (.mark .dot, 1) ↔
      (∀ c ∈ rest.head?, c.isDigit = false) ∧ ¬['.', '.'] <+: rest := by
  rw [← numberAt_dot, at?_symbol (by decide +kernel)]
  have mark : (special? '.' rest).getD (markOrStray ('.' :: rest)) = markOrStray ('.' :: rest) :=
    rfl
  rw [mark, markOrStray_dot]
  by_cases number : numberAt '.' rest = 0
  · by_cases dots : ['.', '.'] <+: rest
    · simp [number, dots]
    · simp [number, dots]
  · simp [number]

/-! ### Words and texts in quotes -/

theorem special?_of_at? {c : Char} {rest : List Char} {token : Token} {n : Nat}
    (found : at? c rest = some (token, n))
    (inQuotes : token = .comment ∨ token = .quoted ∨ token = .raw) :
    special? c rest = some (token, n) := by
  cases found_of_at? found with
  | newline _ kind => simp [kind] at inQuotes
  | name _ kind => simp [kind] at inQuotes
  | number _ _ kind => simp [kind] at inQuotes
  | special found => exact found
  | mark _ _ _ _ kind => simp [kind] at inQuotes
  | stray kind => simp [kind] at inQuotes

/-- A word goes as far as name characters do. -/
theorem word_of_at? {c : Char} {inner rest : List Char} {k : Option Keyword}
    (found : at? c (inner ++ rest) = some (.word k, inner.length + 1)) :
    Text.isNameStart c ∧ k = Keyword.ofWord? (c :: inner) ∧ (∀ d ∈ inner, Text.isNamePart d) ∧
      ∀ d ∈ rest.head?, Text.isNamePart d = false := by
  cases found_of_at? found with
  | newline _ kind => cases kind
  | name start kind size =>
    obtain ⟨all, stops⟩ := takeWhile_append_eq_iff.1 (Nat.succ.inj size).symm
    rw [takeWhile_append_eq all stops, Token.word.injEq] at kind
    exact ⟨start, kind, all, stops⟩
  | number _ _ kind => cases kind
  | special found => simpa using kind_of_special? found
  | mark _ _ _ _ kind => cases kind
  | stray kind => cases kind

end Lexeme

/-! ### Segments of headers -/

/-- The tokens of headers. -/
def isHeaderToken : Token → Bool
  | .word _ => true
  | .quoted => true
  | .raw => true
  | .mark m => m == .dot || m == .parenL || m == .parenR || m == .semicolon || m == .nul
  | _ => false

/-- A segment that a header can have. -/
def Segment.Calm (s : Segment) : Prop :=
  ∀ token, s.word? = some token → isHeaderToken token

/-- A text goes on neither with a word, nor with a line comment, nor with the dots of a segment. -/
structure Segment.Bounded (s : Segment) (rest : List Char) : Prop where
  word : ∀ k, s.token = some (.word k) → ∀ c ∈ rest.head?, Text.isNamePart c = false
  line : s.token = some .comment → s.text.tail.head? = some '/' → ∀ c ∈ rest.head?, c = '\n'
  dot : s.token = some (.mark .dot) →
    (∀ c ∈ rest.head?, c.isDigit = false) ∧ ¬['.', '.'] <+: rest

/-- What a mark of headers needs of the text behind it. -/
theorem at?_mark_congr {c : Char} {inner rest rest' : List Char} {m : Mark}
    (found : at? c (inner ++ rest) = some (.mark m, inner.length + 1))
    (calm : isHeaderToken (.mark m))
    (dot : m = .dot → (∀ c ∈ rest'.head?, c.isDigit = false) ∧ ¬['.', '.'] <+: rest') :
    at? c (inner ++ rest') = some (.mark m, inner.length + 1) := by
  have marked := markAt?_of_at? found
  have kinds : m = .dot ∨ ∃ d, (d, m) ∈ singles := by
    simp only [isHeaderToken, Bool.or_eq_true, beq_iff_eq] at calm
    rcases calm with (((rfl | rfl) | rfl) | rfl) | rfl
    · exact .inl rfl
    · exact .inr ⟨'(', by decide⟩
    · exact .inr ⟨')', by decide⟩
    · exact .inr ⟨';', by decide⟩
    · exact .inr ⟨'\x00', by decide⟩
  rcases kinds with rfl | ⟨d, single⟩
  · obtain ⟨rfl, rfl⟩ := markAt?_single (d := '.') (by decide) marked
    exact (at?_dot rest').2 (dot rfl)
  · have spellings : ∀ s ∈ singles, ∀ x ∈ Mark.spellings, x.2 = s.2 → x.1 = [s.1] := by decide
    obtain ⟨rfl, rfl⟩ := markAt?_single (spellings _ single) marked
    exact at?_single single rest'

/-- A segment of a header stays what it is before any text that does not continue it. -/
theorem Segment.Fits.change {s : Segment} {rest rest' : List Char} (fits : s.Fits rest)
    (calm : s.Calm) (bounded : s.Bounded rest') : s.Fits rest' := by
  obtain ⟨token, _ | ⟨c, inner⟩⟩ := s
  · exact fits
  cases token with
  | none =>
    obtain ⟨rfl, absent⟩ := fits
    exact ⟨rfl, at?_space (isSpace_of_at? absent) rest'⟩
  | some token =>
    have found : at? c (inner ++ rest) = some (token, inner.length + 1) := fits
    show at? c (inner ++ rest') = some (token, inner.length + 1)
    have quoted (inQuotes : token = .comment ∨ token = .quoted ∨ token = .raw)
        (block : token = .comment → inner.head? = some '*') :
        at? c (inner ++ rest') = some (token, inner.length + 1) :=
      at?_of_special? (special?_congr rest' (special?_of_at? found inQuotes) block)
    cases token with
    | word k =>
      obtain ⟨start, rfl, all, -⟩ := word_of_at? found
      rw [at?_nameStart start, takeWhile_append_eq all (bounded.word _ rfl)]
    | quoted => exact quoted (.inr (.inl rfl)) (by simp)
    | raw => exact quoted (.inr (.inr rfl)) (by simp)
    | mark m => exact at?_mark_congr found (calm _ rfl) fun dot => bounded.dot (by rw [dot])
    | newline =>
      cases at?_shape found (by simp) with
      | newline => rfl
      | closed _ _ _ _ _ plain => exact absurd rfl plain
    | comment =>
      cases at?_shape found (by simp) with
      | line within stops =>
        have kept := at?_lineComment within (bounded.line rfl rfl)
        simpa using kept
      | closed _ _ _ _ block _ => exact quoted (.inl rfl) block
    | number => exact absurd (calm _ rfl) (by decide)
    | rune => exact absurd (calm _ rfl) (by decide)
    | stray => exact absurd (calm _ rfl) (by decide)

theorem Segment.Fits.bounded {s : Segment} {rest : List Char} (fits : s.Fits rest) :
    s.Bounded rest := by
  obtain ⟨token, _ | ⟨c, inner⟩⟩ := s
  · exact absurd rfl fits.text_ne_nil
  refine ⟨fun k word => ?_, fun comment line => ?_, fun dot => ?_⟩
  · obtain rfl : token = some (.word k) := word
    have found : at? c (inner ++ rest) = some (.word k, inner.length + 1) := fits
    exact (word_of_at? found).2.2.2
  · obtain rfl : token = some .comment := comment
    cases at?_shape fits (by simp) with
    | line within stops => exact stops
    | closed _ _ _ _ block _ =>
      rw [block rfl] at line
      cases line
  · obtain rfl : token = some (.mark .dot) := dot
    have found : at? c (inner ++ rest) = some (.mark .dot, inner.length + 1) := fits
    obtain ⟨rfl, rfl⟩ := markAt?_single (d := '.') (by decide) (markAt?_of_at? found)
    exact (at?_dot rest).1 found

/-- Of the segments of headers, only a dot starts with a dot. -/
theorem Segment.Fits.token_of_dot {s : Segment} {rest : List Char} (fits : s.Fits rest)
    (calm : s.Calm) (head : s.text.head? = some '.') : s.token = some (.mark .dot) := by
  obtain ⟨token, _ | ⟨c, inner⟩⟩ := s
  · exact absurd rfl fits.text_ne_nil
  obtain rfl : c = '.' := Option.some.inj head
  cases token with
  | none => exact absurd (isSpace_of_at? fits.2) (by decide)
  | some token =>
    have found : at? '.' (inner ++ rest) = some (token, inner.length + 1) := fits
    rw [at?_symbol (by decide +kernel)] at found
    split at found
    · rw [Option.some.injEq, Prod.mk.injEq] at found
      rw [← found.1] at calm
      exact absurd (calm _ rfl) (by decide)
    · have mark : (special? '.' (inner ++ rest)).getD (markOrStray ('.' :: (inner ++ rest))) =
          markOrStray ('.' :: (inner ++ rest)) := rfl
      rw [mark, markOrStray_dot] at found
      split at found
      · rw [Option.some.injEq, Prod.mk.injEq] at found
        rw [← found.1] at calm
        exact absurd (calm _ rfl) (by decide)
      · rw [Option.some.injEq, Prod.mk.injEq] at found
        rw [found.1]

/-- Segments of a header stay what they are before any text that does not continue the last. -/
theorem LexedBefore.change {segments : List Segment} {rest rest' : List Char}
    (lexed : LexedBefore rest segments) (calm : ∀ s ∈ segments, s.Calm)
    (last : ∀ s ∈ segments.getLast?, s.Bounded rest' ∧ s.token ≠ some (.mark .dot)) :
    LexedBefore rest' segments := by
  induction segments with
  | nil => trivial
  | cons s segments ih =>
    obtain ⟨fits, lexed⟩ := lexed
    have calm' := fun t member => calm t (List.mem_cons_of_mem s member)
    rcases segments with _ | ⟨t, segments⟩
    · exact ⟨fits.change (calm s List.mem_cons_self) (last s rfl).1, trivial⟩
    have last' : ∀ u ∈ (t :: segments).getLast?, u.Bounded rest' ∧ u.token ≠ some (.mark .dot) := by
      intro u final
      exact last u (by rwa [List.getLast?_cons_cons])
    refine ⟨fits.change (calm s List.mem_cons_self) ?_, ih lexed calm' last'⟩
    have bounded := fits.bounded
    obtain ⟨c, inner, text⟩ := List.exists_cons_of_ne_nil lexed.1.text_ne_nil
    -- the text that follows starts with the same character
    have head (rest : List Char) : (textOf (t :: segments) ++ rest).head? = some c := by
      simp [text]
    refine ⟨fun k word => ?_, fun comment line => ?_, fun dot => ⟨?_, fun dots => ?_⟩⟩
    · have stops := bounded.word k word
      rw [head] at stops ⊢
      exact stops
    · have stops := bounded.line comment line
      rw [head] at stops ⊢
      exact stops
    · have stops := (bounded.dot dot).1
      rw [head] at stops ⊢
      exact stops
    · rw [textOf_cons, text, List.cons_append, List.cons_append, List.cons_prefix_cons] at dots
      obtain ⟨rfl, dots⟩ := dots
      cases inside : inner ++ textOf segments with
      | nil =>
        -- a last segment that starts with a dot would be one
        obtain ⟨rfl, textless⟩ := List.append_eq_nil_iff.1 inside
        have empty : segments = [] := by
          rcases segments with _ | ⟨u, segments⟩
          · rfl
          · rw [textOf_cons, List.append_eq_nil_iff] at textless
            exact absurd textless.1 lexed.2.1.text_ne_nil
        subst empty
        have isDot := lexed.1.token_of_dot (calm' t List.mem_cons_self) (by rw [text]; rfl)
        exact (last' t rfl).2 isDot
      | cons d tail =>
        rw [inside, List.cons_append, List.cons_prefix_cons] at dots
        refine (bounded.dot dot).2 ?_
        rw [textOf_cons, text, List.cons_append, List.cons_append, inside, ← dots.1]
        exact ⟨tail ++ rest, by simp⟩

/-- What follows the segments of a header in a text can be exchanged. -/
theorem Scanned.change {front tail tail' : List Segment} (scanned : Scanned (front ++ tail))
    (calm : ∀ s ∈ front, s.Calm) (lexed : LexedBefore [] tail') (nonempty : words false front ≠ [])
    (last : ∀ s ∈ front.getLast?, s.Bounded (textOf tail') ∧ s.token ≠ some (.mark .dot)) :
    Scanned (front ++ tail') := by
  have whole : LexedBefore [] (front ++ tail') ↔ LexedBefore (textOf tail') front := by
    rw [lexedBefore_append, List.append_nil]
    exact and_iff_left lexed
  rcases scanned with ⟨scanned, unmarked⟩ | ⟨c, segments, split, bom, scanned⟩
  · rw [lexedBefore_append, List.append_nil] at scanned
    refine .inl ⟨whole.2 (scanned.1.change calm last), ?_⟩
    rcases front with _ | ⟨s, front⟩
    · exact absurd rfl nonempty
    · obtain ⟨c, inner, text⟩ := List.exists_cons_of_ne_nil scanned.1.1.text_ne_nil
      simpa [text] using unmarked
  · rcases front with _ | ⟨s, front⟩
    · exact absurd rfl nonempty
    · rw [List.cons_append, List.cons.injEq] at split
      obtain ⟨rfl, rfl⟩ := split
      rw [lexedBefore_append, List.append_nil] at scanned
      refine .inr ⟨c, front ++ tail', rfl, bom, lexedBefore_append.2 ⟨?_, lexed⟩⟩
      rw [List.append_nil]
      refine scanned.1.change (fun s member => calm s (List.mem_cons_of_mem _ member)) ?_
      rcases front with _ | ⟨t, front⟩
      · simp
      · rwa [List.getLast?_cons_cons] at last

end Marginalia.Go
