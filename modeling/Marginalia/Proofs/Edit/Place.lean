/-
Module: Marginalia.Proofs.Edit.Place
Purpose: Places between the segments of a text, where other segments can be put.
Main exports:
  lineStart?_eq_some, specLineStart?_eq_some, Quiet, Scanned.wordless_of_quiet, Lexeme.Uncut,
  Scanned.exists_boundary, Scanned.eq_newline, Segment.Closed, Scanned.closed_of_word
-/
import Marginalia.Proofs.Edit.Filler
import Marginalia.Proofs.Go.Stability

namespace Marginalia

namespace Edit

open Go Go.Lexeme
open Text (isBlank splitOn)

/-! ### Lines -/

/-- Lines of a text with their newlines. -/
def linesText (lines : List (List Char)) : List Char :=
  lines.flatMap (· ++ ['\n'])

theorem linesText_append (first second : List (List Char)) :
    linesText (first ++ second) = linesText first ++ linesText second := by
  simp [linesText]

theorem getLast?_linesText {lines : List (List Char)} (nonempty : lines ≠ []) :
    (linesText lines).getLast? = some '\n' := by
  obtain ⟨init, last, rfl⟩ := List.eq_nil_or_concat lines |>.resolve_left nonempty
  simp [linesText]

theorem exists_linesText (text : List Char) :
    ∃ lines current, splitOn '\n' text = lines ++ [current] ∧ text = linesText lines ++ current ∧
      ∀ l ∈ lines, '\n' ∉ l := by
  obtain ⟨lines, current, pieces⟩ :=
    List.eq_nil_or_concat (splitOn '\n' text) |>.resolve_left (Text.splitOn_ne_nil '\n' text)
  rw [List.concat_eq_append] at pieces
  refine ⟨lines, current, pieces, ?_, fun l member => ?_⟩
  · rw [← Text.joinWith_splitOn '\n' text, pieces, joinWith_concat]
    rfl
  · refine @Text.not_mem_of_mem_splitOn _ text _ ?_
    rw [pieces]
    exact List.mem_append_left _ member

/-- The start of a line that holds only blanks up to an offset. -/
theorem lineStart?_eq_some {source before behind : List Char} {start : Nat}
    (whole : source = before ++ behind)
    (found : lineStart? source (Utf8.size before) = some start) :
    ∃ lines blanks, before = linesText lines ++ blanks ∧ start = Utf8.size (linesText lines) ∧
      linesUpTo source (Utf8.size before) = blanks :: lines.reverse ∧
      (∀ c ∈ blanks, isBlank c) ∧ ∀ l ∈ lines, '\n' ∉ l := by
  obtain ⟨lines, current, pieces, text, clear⟩ := exists_linesText before
  have above : linesUpTo source (Utf8.size before) = current :: lines.reverse := by
    rw [linesUpTo_eq whole, pieces]
    simp
  rw [lineStart?, above] at found
  dsimp only at found
  split at found
  · rename_i blank
    cases found
    refine ⟨lines, current, text, ?_, above, by simpa using blank, clear⟩
    have size := congrArg Utf8.size text
    rw [Utf8.size_append] at size
    omega
  · cases found

/-- An offset right behind a newline, or at the start of the text, starts a line. -/
theorem lineStart?_linesText {source behind : List Char} {lines : List (List Char)}
    (whole : source = linesText lines ++ behind) :
    lineStart? source (Utf8.size (linesText lines)) = some (Utf8.size (linesText lines)) := by
  rcases List.eq_nil_or_concat lines with rfl | ⟨init, last, rfl⟩
  · simp only [linesText, List.flatMap_nil, List.nil_append] at whole ⊢
    rw [lineStart?, @linesUpTo_eq source [] behind (by simpa using whole)]
    rfl
  · have text : linesText (init.concat last) = (linesText init ++ last) ++ '\n' :: [] := by
      simp [linesText]
    rw [text] at whole ⊢
    rw [lineStart?, linesUpTo_eq whole, Text.splitOn_append_sep]
    simp [splitOn]

/-- The start of the comment lines above a line that holds only blanks up to an offset. -/
theorem specLineStart?_eq_some {source before behind : List Char} {start : Nat}
    (whole : source = before ++ behind)
    (found : specLineStart? source (Utf8.size before) = some start) :
    ∃ lines comments blanks, before = linesText lines ++ (linesText comments ++ blanks) ∧
      start = Utf8.size (linesText lines) ∧ (∀ l ∈ comments, isCommentLine l ∧ '\n' ∉ l) ∧
      ∀ c ∈ blanks, isBlank c := by
  obtain ⟨start', begins, rfl⟩ := Option.map_eq_some_iff.1 found
  obtain ⟨lines, blanks, text, rfl, above, blank, clear⟩ := lineStart?_eq_some whole begins
  rw [above, List.drop_one, List.tail_cons]
  have parts : linesText lines = linesText (lines.rdropWhile isCommentLine) ++
      linesText (lines.rtakeWhile isCommentLine) := by
    rw [← linesText_append, List.rdropWhile_append_rtakeWhile]
  have climbed : commentBytes lines.reverse =
      Utf8.size (linesText (lines.rtakeWhile isCommentLine)) := by
    rw [List.rtakeWhile, linesText, size_flatMap_reverse, commentBytes]
  refine ⟨lines.rdropWhile isCommentLine, lines.rtakeWhile isCommentLine, blanks, ?_, ?_, ?_,
    blank⟩
  · rw [text, parts, List.append_assoc]
  · rw [parts, Utf8.size_append, climbed]
    exact Nat.add_sub_cancel ..
  · intro l member
    refine ⟨List.mem_rtakeWhile_imp member, clear l ?_⟩
    exact (List.rtakeWhile_suffix isCommentLine lines).subset member

/-! ### Segments without words -/

/-- Blanks, newlines and line comments. -/
inductive Quiet : List Char → Prop
  | nil : Quiet []
  | blank {c : Char} {cs : List Char} (blank : isBlank c) (quiet : Quiet cs) : Quiet (c :: cs)
  | comment {body cs : List Char} (within : '\n' ∉ body) (quiet : Quiet cs) :
    Quiet ('/' :: '/' :: (body ++ '\n' :: cs))

theorem Quiet.append_blanks {blanks cs : List Char} (blank : ∀ c ∈ blanks, isBlank c)
    (quiet : Quiet cs) : Quiet (blanks ++ cs) := by
  induction blanks with
  | nil => exact quiet
  | cons c blanks ih =>
    obtain ⟨first, others⟩ := List.forall_mem_cons.1 blank
    exact .blank first (ih others)

theorem quiet_linesText {comments : List (List Char)} {blanks : List Char}
    (lines : ∀ l ∈ comments, isCommentLine l ∧ '\n' ∉ l) (blank : ∀ c ∈ blanks, isBlank c) :
    Quiet (linesText comments ++ blanks) := by
  induction comments with
  | nil =>
    have quiet := Quiet.append_blanks blank .nil
    simpa [linesText] using quiet
  | cons l comments ih =>
    obtain ⟨⟨comment, clear⟩, others⟩ := List.forall_mem_cons.1 lines
    obtain ⟨body, slashes⟩ := Option.isSome_iff_exists.1 comment
    have text : l.dropWhile isBlank = '/' :: '/' :: body := Text.after?_eq_some_iff.1 slashes
    have whole : l = l.takeWhile isBlank ++ '/' :: '/' :: body := by
      rw [← text, List.takeWhile_append_dropWhile]
    have within : '\n' ∉ body := by
      intro member
      refine clear ?_
      rw [whole]
      simp [member]
    have split : linesText (l :: comments) ++ blanks = l.takeWhile isBlank ++
        '/' :: '/' :: (body ++ '\n' :: (linesText comments ++ blanks)) := by
      conv_lhs => rw [whole]
      simp [linesText]
    rw [split]
    exact .append_blanks (fun c member => List.mem_takeWhile_imp member)
      (.comment within (ih others))

/-- The segment at the start of a text is what is found there. -/
theorem fits_eq {s : Segment} {rest : List Char} (fits : s.Fits rest) {c : Char} {tail : List Char}
    (text : s.text ++ rest = c :: tail) :
    match at? c tail with
    | none => s = ⟨none, [c]⟩
    | some (token, n) => s.token = some token ∧ s.text.length = n := by
  obtain ⟨token, _ | ⟨d, inner⟩⟩ := s
  · exact absurd rfl fits.text_ne_nil
  · obtain ⟨rfl, rfl⟩ := List.cons.inj ((List.cons_append ..).symm.trans text)
    cases token with
    | none =>
      obtain ⟨rfl, absent⟩ := fits
      rw [List.nil_append, absent]
    | some token =>
      have found : at? d (inner ++ rest) = some (token, inner.length + 1) := fits
      rw [found]
      exact ⟨rfl, rfl⟩

/-- Segments of blanks, newlines and line comments have no words. -/
theorem wordless_of_quiet {segments : List Segment} {rest : List Char}
    (lexed : LexedBefore rest segments) (real : ∀ s ∈ segments, s.token ≠ some .stray)
    (quiet : Quiet (textOf segments)) : ∀ s ∈ segments, s.word? = none := by
  induction segments with
  | nil => simp
  | cons s segments ih =>
    obtain ⟨fits, lexed⟩ := lexed
    obtain ⟨here, others⟩ := List.forall_mem_cons.1 real
    obtain ⟨c, inner, text⟩ := List.exists_cons_of_ne_nil fits.text_ne_nil
    have found := fits_eq fits (show s.text ++ (textOf segments ++ rest) =
      c :: (inner ++ (textOf segments ++ rest)) by rw [text]; rfl)
    generalize whole : textOf (s :: segments) = cs at quiet
    rw [textOf_cons, text, List.cons_append] at whole
    rw [List.forall_mem_cons]
    cases quiet with
    | nil => cases whole
    | blank blank quiet =>
      obtain ⟨rfl, rfl⟩ := List.cons.inj whole
      have one : s.word? = none ∧ inner = [] := by
        by_cases newline : (c == '\n') = true
        · rw [beq_iff_eq] at newline
          subst newline
          rw [at?_newline, text] at found
          exact ⟨by rw [Segment.word?, found.1], List.eq_nil_of_length_eq_zero
            (Nat.succ.inj found.2)⟩
        rw [Bool.not_eq_true] at newline
        by_cases space : isSpace c = true
        · rw [at?_space space] at found
          rw [found] at text
          exact ⟨by rw [found]; rfl, (List.cons.inj text).2.symm⟩
        · rw [Bool.not_eq_true] at space
          rw [at?_of_isBlank blank newline space] at found
          exact absurd found.1 here
      obtain ⟨gap, rfl⟩ := one
      exact ⟨gap, ih lexed others quiet⟩
    | comment within quiet =>
      rename_i body cs
      obtain ⟨rfl, tail⟩ := List.cons.inj whole
      have line := @at?_lineComment _ ('\n' :: (cs ++ rest)) within (by simp)
      have same : inner ++ (textOf segments ++ rest) =
          '/' :: body ++ '\n' :: (cs ++ rest) := by
        rw [← List.append_assoc, tail]
        simp
      rw [same, line, text] at found
      have long : inner.length = ('/' :: body).length := by
        rw [List.length_cons]
        exact Nat.succ.inj found.2
      obtain ⟨-, behind⟩ := List.append_inj (tail.trans (List.cons_append ..).symm) long
      refine ⟨by rw [Segment.word?, found.1], ih lexed others ?_⟩
      rw [behind]
      exact .blank isBlank_newline quiet

theorem words_of_wordless {segments : List Segment} (wordless : ∀ s ∈ segments, s.word? = none)
    (newline : Bool) : words newline segments = [] := by
  induction segments generalizing newline with
  | nil => rfl
  | cons s segments ih =>
    obtain ⟨here, others⟩ := List.forall_mem_cons.1 wordless
    rw [words, here]
    exact ih others _

end Edit

namespace Go

open Lexeme

/-! ### Places between segments -/

/-- An offset of a text that lies in none of its lexemes. -/
def Lexeme.Uncut (source : List Char) (offset : Nat) : Prop :=
  ∀ l ∈ scan source, offset ≤ l.start.offset ∨ l.stop.offset ≤ offset

instance (source : List Char) : DecidablePred (Lexeme.Uncut source) :=
  fun _ => inferInstanceAs (Decidable (∀ l ∈ scan source, _ ∨ _))

theorem exists_boundary_placed {segments : List Segment} {before behind : List Char} {p : Point}
    (blanks : ∀ s ∈ segments, s.token = none → s.text.length ≤ 1)
    (whole : textOf segments = before ++ behind)
    (uncut : ∀ l ∈ placed p segments, p.offset + Utf8.size before ≤ l.start.offset ∨
      l.stop.offset ≤ p.offset + Utf8.size before) :
    ∃ pre post, segments = pre ++ post ∧ textOf pre = before ∧ textOf post = behind := by
  induction segments generalizing before p with
  | nil =>
    obtain ⟨rfl, rfl⟩ := List.append_eq_nil_iff.1 whole.symm
    exact ⟨[], [], rfl, rfl, rfl⟩
  | cons s segments ih =>
    obtain ⟨blank, blanks⟩ := List.forall_mem_cons.1 blanks
    rw [textOf_cons] at whole
    rcases List.append_eq_append_iff.1 whole with ⟨more, rfl, tail⟩ | ⟨second, text, rfl⟩
    · -- the place is behind this segment
      have uncut' : ∀ l ∈ placed (p.after s.text) segments,
          (p.after s.text).offset + Utf8.size more ≤ l.start.offset ∨
            l.stop.offset ≤ (p.after s.text).offset + Utf8.size more := by
        intro l member
        rw [Point.offset_after, Nat.add_assoc, ← Utf8.size_append]
        refine uncut l ?_
        obtain ⟨_ | token, text⟩ := s
        · exact member
        · exact List.mem_cons_of_mem _ member
      obtain ⟨pre, post, rfl, rfl, rfl⟩ := ih blanks tail uncut'
      exact ⟨s :: pre, post, rfl, rfl, rfl⟩
    · rcases before with _ | ⟨b, before⟩
      · exact ⟨[], s :: segments, rfl, rfl, by rw [textOf_cons, text]; rfl⟩
      rcases second with _ | ⟨d, second⟩
      · exact ⟨[s], segments, rfl, by simpa using text, rfl⟩
      · -- the place would be inside this segment
        obtain ⟨_ | token, inner⟩ := s
        · have short := blank rfl
          rw [text] at short
          simp only [List.length_append, List.length_cons] at short
          omega
        · obtain rfl : inner = b :: before ++ d :: second := text
          have first := Utf8.size_pos (List.cons_ne_nil b before)
          have last := Utf8.size_pos (List.cons_ne_nil d second)
          have here := uncut ⟨token, p, p.after (b :: before ++ d :: second)⟩ List.mem_cons_self
          rw [Point.offset_after, Utf8.size_append] at here
          dsimp only at here
          omega

theorem Scanned.length_of_blank {segments : List Segment} (scanned : Scanned segments) :
    ∀ s ∈ segments, s.token = none → s.text.length ≤ 1 := by
  have lexed : ∀ {segments : List Segment}, LexedBefore [] segments →
      ∀ s ∈ segments, s.token = none → s.text.length ≤ 1 := by
    intro segments lexed s member blank
    obtain ⟨pre, post, rfl⟩ := List.append_of_mem member
    have fits := (lexedBefore_append.1 lexed).2.1
    obtain ⟨token, _ | ⟨c, inner⟩⟩ := s
    · exact absurd rfl fits.text_ne_nil
    · obtain rfl : token = none := blank
      obtain ⟨rfl, -⟩ := fits
      exact Nat.le_refl 1
  rcases scanned with ⟨whole, -⟩ | ⟨c, tail, rfl, -, rest⟩
  · exact lexed whole
  · exact List.forall_mem_cons.2 ⟨fun _ => Nat.le_refl 1, lexed rest⟩

/-- An offset that lies in no lexeme is a place between segments. -/
theorem Scanned.exists_boundary {segments : List Segment} (scanned : Scanned segments)
    {before behind : List Char} (whole : textOf segments = before ++ behind)
    (uncut : Lexeme.Uncut (textOf segments) (Utf8.size before)) :
    ∃ pre post, segments = pre ++ post ∧ textOf pre = before ∧ textOf post = behind := by
  refine exists_boundary_placed (p := ⟨0, 0⟩) scanned.length_of_blank whole ?_
  simpa [Lexeme.Uncut, scanned.scan_eq] using uncut

/-- Of two places the one with less text before it comes first. -/
theorem exists_between {segments pre post pre' post' : List Segment}
    (split : segments = pre ++ post) (split' : segments = pre' ++ post')
    (solid : ∀ s ∈ segments, s.text ≠ [])
    (le : Utf8.size (textOf pre) ≤ Utf8.size (textOf pre')) :
    ∃ mid, pre' = pre ++ mid ∧ post = mid ++ post' := by
  subst split
  rcases List.append_eq_append_iff.1 split' with ⟨mid, rfl, rfl⟩ | ⟨mid, rfl, rfl⟩
  · exact ⟨mid, rfl, rfl⟩
  · rcases mid with _ | ⟨s, mid⟩
    · exact ⟨[], by simp, by simp⟩
    · have positive := Utf8.size_pos (solid s (by simp))
      rw [textOf_append, textOf_cons, Utf8.size_append, Utf8.size_append] at le
      omega

/-! ### Parts of scanned texts -/

theorem Scanned.tail {pre post : List Segment} (scanned : Scanned (pre ++ post))
    (nonempty : pre ≠ []) : LexedBefore [] post := by
  rcases scanned with ⟨lexed, -⟩ | ⟨c, segments, split, -, lexed⟩
  · exact (lexedBefore_append.1 lexed).2
  · rcases pre with _ | ⟨s, pre⟩
    · exact absurd rfl nonempty
    · obtain ⟨-, rfl⟩ := List.cons.inj split
      exact (lexedBefore_append.1 lexed).2

/-- A segment is a blank or what is found at its place. -/
theorem Scanned.fits {pre post : List Segment} {s : Segment}
    (scanned : Scanned (pre ++ s :: post)) :
    (∃ c, s = ⟨none, [c]⟩ ∧ c ≠ '\n') ∨ s.Fits (textOf post) := by
  rcases scanned with ⟨lexed, -⟩ | ⟨c, segments, split, bom, lexed⟩
  · have fits := (lexedBefore_append.1 lexed).2.1
    rw [List.append_nil] at fits
    exact .inr fits
  · rcases pre with _ | ⟨t, pre⟩
    · obtain ⟨rfl, -⟩ := List.cons.inj split
      refine .inl ⟨c, rfl, ?_⟩
      rintro rfl
      exact absurd bom (by decide)
    · obtain ⟨-, rfl⟩ := List.cons.inj split
      have fits := (lexedBefore_append.1 lexed).2.1
      rw [List.append_nil] at fits
      exact .inr fits

/-- What follows a segment does not continue it. -/
theorem Scanned.bounded_last {pre post : List Segment} (scanned : Scanned (pre ++ post)) :
    ∀ s ∈ pre.getLast?, s.Bounded (textOf post) := by
  intro s last
  obtain ⟨front, rfl⟩ := List.getLast?_eq_some_iff.1 last
  rw [List.append_assoc] at scanned
  rcases scanned.fits with ⟨c, rfl, -⟩ | fits
  · exact ⟨by simp, by simp, by simp⟩
  · exact fits.bounded

/-- A segment that starts with a newline is one. -/
theorem Scanned.token_of_newline {pre post : List Segment} {s : Segment}
    (scanned : Scanned (pre ++ s :: post)) (starts : ∀ c ∈ (textOf (s :: post)).head?, c = '\n') :
    s.token = some .newline := by
  rcases scanned.fits with ⟨c, rfl, other⟩ | fits
  · exact absurd (starts c rfl) other
  obtain ⟨c, inner, text⟩ := List.exists_cons_of_ne_nil fits.text_ne_nil
  obtain rfl : c = '\n' := starts c (by simp [textOf_cons, text])
  have found := Edit.fits_eq fits (show s.text ++ textOf post = '\n' :: (inner ++ textOf post) by
    rw [text]; rfl)
  rw [at?_newline] at found
  exact found.1

/-- A segment that ends in a newline is one. -/
theorem Scanned.eq_newline {pre post : List Segment} {s : Segment}
    (scanned : Scanned (pre ++ s :: post)) (real : s.token ≠ some .stray)
    (last : s.text.getLast? = some '\n') : s = ⟨some .newline, ['\n']⟩ := by
  rcases scanned.fits with ⟨c, rfl, other⟩ | fits
  · exact absurd (Option.some.inj last) other
  obtain ⟨token, _ | ⟨c, inner⟩⟩ := s
  · exact absurd rfl fits.text_ne_nil
  cases token with
  | none =>
    obtain ⟨rfl, absent⟩ := fits
    obtain rfl : c = '\n' := Option.some.inj last
    cases absent
  | some token =>
    have shape : Shape (textOf post) token (c :: inner) :=
      at?_shape fits fun stray => real (by rw [stray])
    generalize c :: inner = text at shape last
    cases shape with
    | newline => rfl
    | line within _ =>
      have member : '\n' ∈ '/' :: '/' :: _ := List.mem_of_getLast? last
      simp only [List.mem_cons, Char.reduceEq, false_or] at member
      exact absurd member within
    | closed _ _ ends _ _ _ =>
      have solid := ends '\n' last
      rw [isBlank_newline] at solid
      cases solid

/-- Segments of blanks, newlines and line comments have no words. -/
theorem Scanned.wordless_of_quiet {pre mid post : List Segment}
    (scanned : Scanned (pre ++ (mid ++ post))) (real : ∀ s ∈ mid, s.token ≠ some .stray)
    (quiet : Edit.Quiet (textOf mid)) : ∀ s ∈ mid, s.word? = none := by
  rcases scanned with ⟨lexed, -⟩ | ⟨c, tail, split, bom, lexed⟩
  · have lexed := (lexedBefore_append.1 (lexedBefore_append.1 lexed).2).1
    exact Edit.wordless_of_quiet lexed real quiet
  rcases pre with _ | ⟨s, pre⟩
  · rcases mid with _ | ⟨s, mid⟩
    · simp
    · -- a byte order mark is no blank
      obtain ⟨rfl, -⟩ := List.cons.inj split
      have wide : c = Char.ofNat 0xFEFF := by rw [← bom, Char.ofNat_toNat]
      subst wide
      rw [textOf_cons] at quiet
      cases quiet with
      | blank blank _ => exact absurd blank (by decide)
  · obtain ⟨-, rfl⟩ := List.cons.inj split
    have lexed := (lexedBefore_append.1 (lexedBefore_append.1 lexed).2).1
    exact Edit.wordless_of_quiet lexed real quiet

/-! ### Segments that nothing continues -/

/-- A segment that no text behind it continues: neither a word nor a dot nor a line comment. -/
structure Segment.Closed (s : Segment) : Prop where
  word : ∀ k, s.token ≠ some (.word k)
  dot : s.token ≠ some (.mark .dot)
  line : s.token = some .comment → s.text.tail.head? ≠ some '/'

theorem Segment.Closed.bounded {s : Segment} (closed : s.Closed) (rest : List Char) :
    s.Bounded rest where
  word k word := absurd word (closed.word k)
  line comment line := absurd line (closed.line comment)
  dot dot := absurd dot closed.dot

theorem closed_newline : Segment.Closed ⟨some .newline, ['\n']⟩ :=
  ⟨by simp, by simp, by simp⟩

theorem word?_of_words (pre : List Segment) {s : Segment} {token : Token}
    (word : s.word? = some token) (newline : Bool) :
    (words newline (pre ++ [s])).getLast?.map (·.token) = some token := by
  rw [words_append, words_of_word word, List.getLast?_append_of_ne_nil _ (List.cons_ne_nil _ _)]
  rfl

/-- Behind the last word of the segments there is nothing that a word could continue. -/
theorem Scanned.closed_of_word {pre post : List Segment} {s : Segment} {token : Token}
    (scanned : Scanned (pre ++ s :: post)) (here : s.word? = some token)
    (solid : ∀ w ∈ (words false pre).getLast?, (∀ k, w.token ≠ .word k) ∧ w.token ≠ .mark .dot) :
    ∀ t ∈ pre.getLast?, t.Closed := by
  intro t last
  obtain ⟨front, rfl⟩ := List.getLast?_eq_some_iff.1 last
  have known {token : Token} (word : t.word? = some token) :
      (∀ k, token ≠ .word k) ∧ token ≠ .mark .dot := by
    obtain ⟨w, final, rfl⟩ := Option.map_eq_some_iff.1 (word?_of_words front word false)
    exact solid w final
  refine ⟨fun k word => ?_, fun dot => ?_, fun comment line => ?_⟩
  · exact (known (by rw [Segment.word?, word])).1 k rfl
  · exact (known (by rw [Segment.word?, dot])).2 rfl
  · -- a newline would follow, and no word is one
    have stops := (scanned.bounded_last t last).line comment line
    rw [Segment.word?, scanned.token_of_newline stops] at here
    cases here

end Go
end Marginalia
