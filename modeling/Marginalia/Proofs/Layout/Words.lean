/-
Module: Marginalia.Proofs.Layout.Words
Purpose: The canonical layout changes nothing that the grammar sees.
Main exports:
  Held.tidy, Held.lay_eq_textOf_tidy, Held.lexedBefore_tidy, Held.words_tidy,
  Held.unflag_words_tidy
-/
import Marginalia.Proofs.Go.Lexing
import Marginalia.Proofs.Go.Shape
import Marginalia.Proofs.Layout.Characters

namespace Marginalia.Layout

open Go
open Text (isBlank trimEnd)

/-! ### The layout of segments -/

namespace Held

/-- What is held back after one more line break. -/
def withBreak (h : Held) : Held := { h with breaks := h.breaks + 1, blanks := [] }

/-- What is held back after more blanks. -/
def withBlanks (h : Held) (cs : List Char) : Held := { h with blanks := h.blanks ++ cs }

/-- The segments of what is written for the blanks before a lexeme. -/
def gapSegments (h : Held) : List Segment :=
  (if h.written then List.replicate (min h.breaks 2) ⟨some .newline, ['\n']⟩ else []) ++
    h.blanks.map fun c => ⟨none, [c]⟩

/-- The segments of the canonical layout of segments. -/
def tidy (h : Held) : List Segment → List Segment
  | [] => if h.written then [⟨some .newline, ['\n']⟩] else []
  | s :: rest =>
    match s.token with
    | none => tidy (h.withBlanks s.text) rest
    | some .newline => tidy h.withBreak rest
    | some token => h.gapSegments ++ ⟨some token, trimEnd s.text⟩ :: tidy clear rest

theorem textOf_gapSegments (h : Held) : textOf h.gapSegments = h.gap := by
  have blank (cs : List Char) : textOf (cs.map fun c => ⟨none, [c]⟩) = cs := by
    simp [textOf, List.flatMap_map]
  have newlines (n : Nat) : textOf (List.replicate n ⟨some .newline, ['\n']⟩) =
      List.replicate n '\n' := by
    induction n with
    | zero => rfl
    | succ n ih => rw [List.replicate_succ, textOf_cons, ih, List.replicate_succ]; rfl
  rw [gapSegments, textOf_append, blank, gap]
  split
  · rw [newlines]
  · rfl

theorem tidy_lexeme {token : Token} (other : token ≠ .newline) (text : List Char) (h : Held)
    (rest : List Segment) :
    h.tidy (⟨some token, text⟩ :: rest) =
      h.gapSegments ++ ⟨some token, trimEnd text⟩ :: clear.tidy rest := by
  rw [tidy]
  split <;> simp_all

end Held

/-- Segments without stray characters, as they are found when nothing follows them. -/
structure Clean (segments : List Segment) : Prop where
  lexed : LexedBefore [] segments
  real : ∀ s ∈ segments, s.token ≠ some .stray

namespace Clean

variable {s : Segment} {segments : List Segment}

theorem tail (clean : Clean (s :: segments)) : Clean segments :=
  ⟨clean.lexed.2, fun t member => clean.real t (List.mem_cons_of_mem _ member)⟩

/-- A segment is a space or has the shape of its token. -/
theorem cases_head (clean : Clean (s :: segments)) :
    (∃ c, s = ⟨none, [c]⟩ ∧ Lexeme.isSpace c) ∨
      ∃ token, s.token = some token ∧ Shape (textOf segments) token s.text := by
  have fits := clean.lexed.1
  rw [List.append_nil] at fits
  obtain ⟨token, _ | ⟨c, inner⟩⟩ := s
  · exact absurd rfl fits.text_ne_nil
  · cases token with
    | none =>
      obtain ⟨rfl, absent⟩ := fits
      exact .inl ⟨c, rfl, Lexeme.isSpace_of_at? absent⟩
    | some token =>
      refine .inr ⟨token, rfl, Lexeme.at?_shape fits ?_⟩
      have real := clean.real _ List.mem_cons_self
      simpa using real

end Clean

/-! ### Characters and segments -/

/-- The tokens whose text is protected where it spans lines. -/
def spansLines : Option Token → Bool
  | some .comment => true
  | some .raw => true
  | some .quoted => true
  | _ => false

/-- Exactly the newlines in comments and string literals are protected. -/
def Guarded (isProtected : List Span) (offset : Nat) : List Segment → Prop
  | [] => True
  | s :: rest =>
    (∀ before after, s.text = before ++ '\n' :: after →
      inside isProtected (offset + Utf8.size before) = spansLines s.token) ∧
    Guarded isProtected (offset + Utf8.size s.text) rest

variable {isProtected : List Span}

/-- A newline after a lexeme is not protected. -/
theorem Guarded.eq_nil_or_newline {offset : Nat} {segments : List Segment} (clean : Clean segments)
    (guarded : Guarded isProtected offset segments)
    (stops : ∀ c ∈ (textOf segments).head?, c = '\n') :
    textOf segments = [] ∨
      inside isProtected offset = false ∧ ∃ rest, textOf segments = '\n' :: rest := by
  rcases segments with _ | ⟨s, rest⟩
  · exact .inl rfl
  · obtain ⟨c, text, same⟩ := List.exists_cons_of_ne_nil (clean.lexed.text_ne_nil s (by simp))
    obtain rfl := stops c (by simp [same])
    refine .inr ⟨?_, text ++ textOf rest, by simp [same]⟩
    have here := guarded.1 [] text same
    rcases clean.cases_head with ⟨c, rfl, space⟩ | ⟨token, known, shape⟩
    · cases same
      cases space
    · rw [same] at shape
      rw [known] at here
      cases shape with
      | newline => exact here
      | closed nonempty begins => exact absurd (begins '\n' rfl) (by decide)

theorem Guarded.outside {offset : Nat} {rest : List Segment}
    (guarded : Guarded isProtected offset (⟨some .newline, ['\n']⟩ :: rest)) :
    inside isProtected offset = false :=
  guarded.1 [] [] rfl

/-- A segment is a space, a newline or another lexeme. -/
theorem Clean.cases_segment {s : Segment} {rest : List Segment} (clean : Clean (s :: rest)) :
    (∃ c, s = ⟨none, [c]⟩ ∧ Lexeme.isSpace c) ∨ s = ⟨some .newline, ['\n']⟩ ∨
      ∃ token text, s = ⟨some token, text⟩ ∧ token ≠ .newline := by
  rcases clean.cases_head with space | ⟨token, known, shape⟩
  · exact .inl space
  · obtain ⟨_, text⟩ := s
    cases known
    cases shape with
    | newline => exact .inr (.inl rfl)
    | line => exact .inr (.inr ⟨_, _, rfl, by decide⟩)
    | closed _ _ _ _ _ plain => exact .inr (.inr ⟨_, _, rfl, plain⟩)

namespace Held

theorem lay_nil (h : Held) (offset : Nat) : h.lay isProtected offset [] = h.close := rfl

theorem lay_newline {offset : Nat} (outside : inside isProtected offset = false) (h : Held)
    (rest : List Char) :
    h.lay isProtected offset ('\n' :: rest) =
      h.withBreak.lay isProtected (offset + 1) rest := by
  simp only [lay, run_cons, step_newline outside]
  rfl

theorem lay_blanks {tail : List Char} (blank : ∀ c ∈ tail, isBlank c) (clear : '\n' ∉ tail)
    (h : Held) (offset : Nat) (rest : List Char) :
    h.lay isProtected offset (tail ++ rest) =
      (h.withBlanks tail).lay isProtected (offset + Utf8.size tail) rest := by
  rw [lay_append, run_blanks blank clear]
  rfl

theorem lay_prints {offset : Nat} {c : Char} (prints : Prints isProtected offset c) (h : Held)
    (rest : List Char) :
    h.lay isProtected offset (c :: rest) =
      h.gap ++ c :: clear.lay isProtected (offset + c.utf8Size) rest := by
  simp only [lay, run_cons, step_prints prints]
  simp

/-- A text whose newlines are protected and whose last character is written is written whole. -/
theorem lay_core {offset : Nat} {core : List Char} (nonempty : core ≠ [])
    (within : Protected isProtected offset core)
    (last : ∀ c ∈ core.getLast?, isBlank c = false) (h : Held) (rest : List Char) :
    h.lay isProtected offset (core ++ rest) =
      h.gap ++ (core ++ clear.lay isProtected (offset + Utf8.size core) rest) := by
  obtain ⟨front, c, rfl⟩ := List.eq_nil_or_concat core |>.resolve_left nonempty
  rw [List.concat_eq_append] at within last ⊢
  have solid : isBlank c = false := last c (by simp)
  rw [lay_append, run_core within.of_append (.inl solid)]
  simp

/-- Blanks before a newline, or before the end, are dropped. -/
theorem lay_drop_blanks {offset : Nat} {segments : List Segment} (clean : Clean segments)
    (guarded : Guarded isProtected offset segments)
    (stops : ∀ c ∈ (textOf segments).head?, c = '\n') (blanks : List Char) :
    lay isProtected ⟨true, 0, blanks⟩ offset (textOf segments) =
      clear.lay isProtected offset (textOf segments) := by
  rcases guarded.eq_nil_or_newline clean stops with empty | ⟨outside, rest, same⟩
  · rw [empty, lay_nil, lay_nil]
    rfl
  · rw [same, lay_newline outside, lay_newline outside]
    rfl

theorem lay_rune {offset : Nat} (outside : inside isProtected (offset + 1) = false) (h : Held)
    (rest : List Char) :
    h.lay isProtected offset ('\'' :: '\n' :: '\'' :: rest) =
      h.gap ++ '\'' :: '\n' :: '\'' :: clear.lay isProtected (offset + 3) rest := by
  have quote (offset : Nat) : Prints isProtected offset '\'' := .inl (by decide)
  have one : Char.utf8Size '\'' = 1 := rfl
  rw [lay_prints (quote _), one, lay_newline outside, lay_prints (quote _)]
  rfl

/-- A comment up to the end of its line is written up to the blanks at its end. -/
theorem lay_comment (isProtected : List Span) {body : List Char} (within : '\n' ∉ body) (h : Held)
    (offset : Nat) (rest : List Char) :
    ∃ tail, h.lay isProtected offset ('/' :: '/' :: body ++ rest) =
      h.gap ++ (trimEnd ('/' :: '/' :: body) ++
        lay isProtected ⟨true, 0, tail⟩ (offset + Utf8.size ('/' :: '/' :: body)) rest) := by
  generalize whole : '/' :: '/' :: body = text
  have clear : '\n' ∉ text := by
    rw [← whole]
    simpa using within
  obtain ⟨tail, trimmed, blank, solid⟩ := Text.trimEnd_eq_append text
  have nonempty : trimEnd text ≠ [] := by
    intro empty
    rw [empty, List.nil_append] at trimmed
    have slash : isBlank '/' := blank '/' (by rw [← trimmed, ← whole]; simp)
    cases slash
  have apart : '\n' ∉ trimEnd text ∧ '\n' ∉ tail := by
    rw [trimmed, List.mem_append, not_or] at clear
    exact clear
  have sized : Utf8.size text = Utf8.size (trimEnd text) + Utf8.size tail := by
    rw [← Utf8.size_append, ← trimmed]
  refine ⟨tail, ?_⟩
  rw [sized, ← Nat.add_assoc]
  nth_rewrite 1 [trimmed]
  rw [List.append_assoc, lay_core nonempty (protected_of_not_mem apart.1 _) solid,
    lay_blanks blank apart.2]
  rfl

/-- A lexeme is written after the blanks before it, up to the blanks at its end. -/
theorem lay_lexeme {offset : Nat} {token : Token} {text : List Char} {rest : List Segment}
    (clean : Clean (⟨some token, text⟩ :: rest))
    (guarded : Guarded isProtected offset (⟨some token, text⟩ :: rest)) (other : token ≠ .newline)
    (h : Held) :
    h.lay isProtected offset (text ++ textOf rest) =
      h.gap ++ (trimEnd text ++
        Held.clear.lay isProtected (offset + Utf8.size text) (textOf rest)) := by
  obtain ⟨here, later⟩ := guarded
  rcases clean.cases_head with ⟨c, wrong, -⟩ | ⟨token', known, shape⟩
  · cases wrong
  cases known
  cases shape with
  | newline => exact absurd rfl other
  | line within stops =>
    obtain ⟨tail, written⟩ := lay_comment isProtected within h offset (textOf rest)
    rw [written, lay_drop_blanks clean.tail later stops]
  | closed nonempty begins ends lines block plain =>
    rw [Text.trimEnd_of_last ends]
    by_cases alone : token = .rune ∧ text = ['\'', '\n', '\'']
    · obtain ⟨rfl, rfl⟩ := alone
      exact lay_rune (here ['\''] ['\''] rfl) _ _
    · simp only [alone, or_false] at lines
      refine lay_core nonempty (fun before after (same : text = _) => ?_) ends h _
      rw [here before after same]
      rcases lines (by simp [same]) with rfl | rfl | rfl <;> rfl

/-- Writing the characters of segments gives the segments of the layout. -/
theorem lay_eq_textOf_tidy {offset : Nat} {segments : List Segment} (clean : Clean segments)
    (guarded : Guarded isProtected offset segments) (h : Held) :
    h.lay isProtected offset (textOf segments) = textOf (h.tidy segments) := by
  induction segments generalizing offset h with
  | nil =>
    rw [textOf_nil, lay_nil, tidy, close]
    split <;> rfl
  | cons s rest ih =>
    rw [textOf_cons]
    rcases clean.cases_segment with ⟨c, rfl, space⟩ | rfl | ⟨token, text, rfl, other⟩
    · have apart : c ≠ '\n' := by
        rintro rfl
        cases space
      have blank : ∀ d ∈ [c], isBlank d := by simpa using Lexeme.isBlank_of_isSpace space
      rw [tidy, ← ih clean.tail guarded.2]
      exact lay_blanks blank (by simpa using apart.symm) _ _ _
    · rw [tidy, ← ih clean.tail guarded.2]
      exact lay_newline guarded.outside _ _
    · rw [lay_lexeme clean guarded other, ih clean.tail guarded.2, tidy_lexeme other, textOf_append,
        textOf_gapSegments, textOf_cons]

/-! ### What follows a lexeme in the layout -/

/-- The first character after a line break is a newline. -/
theorem head?_lay_of_breaks {h : Held} (written : h.written) (broke : 0 < h.breaks)
    (offset : Nat) (cs : List Char) : (h.lay isProtected offset cs).head? = some '\n' := by
  induction cs generalizing h offset with
  | nil => rw [lay_nil, close, if_pos written]; rfl
  | cons c cs ih =>
    rcases char_cases isProtected offset c with ⟨rfl, outside⟩ | ⟨blank, apart⟩ | prints
    · rw [lay_newline outside]
      exact ih (h := h.withBreak) written (Nat.succ_pos _) _
    · rw [← List.singleton_append, lay_blanks (by simpa using blank) (by simpa using apart.symm)]
      exact ih (h := h.withBlanks [c]) written broke _
    · rw [lay_prints prints, gap, if_pos written]
      obtain ⟨n, many⟩ := Nat.exists_eq_add_one_of_ne_zero (n := min h.breaks 2) (by omega)
      rw [many, List.replicate_succ]
      rfl

/-- A character that is no blank comes first only if it does so in the text. -/
theorem head?_lay {c : Char} (solid : isBlank c = false) {h : Held} (written : h.written)
    (blank : ∀ b ∈ h.blanks, isBlank b) {offset : Nat} {cs : List Char}
    (head : (h.lay isProtected offset cs).head? = some c) :
    h.breaks = 0 ∧ h.blanks = [] ∧ cs.head? = some c := by
  have newline : c ≠ '\n' := by
    rintro rfl
    exact absurd solid (by decide)
  have zero : h.breaks = 0 := by
    by_contra broke
    rw [head?_lay_of_breaks written (Nat.pos_of_ne_zero broke), Option.some.injEq] at head
    exact newline head.symm
  induction cs generalizing h offset with
  | nil =>
    rw [lay_nil, close, if_pos written] at head
    exact absurd (Option.some.inj head).symm newline
  | cons d cs ih =>
    rcases char_cases isProtected offset d with ⟨rfl, outside⟩ | ⟨held, apart⟩ | prints
    · rw [lay_newline outside, head?_lay_of_breaks (h := h.withBreak) written (Nat.succ_pos _),
        Option.some.injEq] at head
      exact absurd head.symm newline
    · rw [← List.singleton_append,
        lay_blanks (by simpa using held) (by simpa using apart.symm)] at head
      have blanks : ∀ b ∈ h.blanks ++ [d], isBlank b :=
        List.forall_mem_append.2 ⟨blank, by simpa using held⟩
      obtain ⟨-, blankless, -⟩ := ih (h := h.withBlanks [d]) written blanks head zero
      simp [withBlanks] at blankless
    · rw [lay_prints prints, gap, zero, if_pos written] at head
      cases blanks : h.blanks with
      | nil =>
        rw [blanks] at head
        exact ⟨zero, rfl, head⟩
      | cons b bs =>
        rw [blanks] at head
        obtain rfl : b = c := Option.some.inj head
        rw [blank b (by simp [blanks])] at solid
        cases solid

theorem ended_lay {cs : List Char} (ended : Ended cs) (offset : Nat) :
    Ended (clear.lay isProtected offset cs) := by
  intro c head
  by_contra solid
  rw [Bool.not_eq_true] at solid
  obtain ⟨-, -, first⟩ := head?_lay solid rfl (by simp [clear]) head
  rw [ended c first] at solid
  cases solid

/-- The layout closes no comment that was open. -/
theorem blockTail_lay {cs : List Char} (unclosed : Lexeme.blockTail cs = none) {h : Held}
    (written : h.written) (blank : ∀ b ∈ h.blanks, isBlank b) (offset : Nat) :
    Lexeme.blockTail (h.lay isProtected offset cs) = none := by
  induction cs generalizing h offset with
  | nil => rw [lay_nil, close, if_pos written]; rfl
  | cons c cs ih =>
    rw [Lexeme.blockTail_cons] at unclosed
    split at unclosed
    · cases unclosed
    · rename_i apart
      rw [Option.map_eq_none_iff] at unclosed
      rcases char_cases isProtected offset c with ⟨rfl, outside⟩ | ⟨held, other⟩ | prints
      · rw [lay_newline outside]
        exact ih (h := h.withBreak) unclosed written (by simp [withBreak]) _
      · rw [← List.singleton_append, lay_blanks (by simpa using held) (by simpa using other.symm)]
        have blanks : ∀ b ∈ h.blanks ++ [c], isBlank b :=
          List.forall_mem_append.2 ⟨blank, by simpa using held⟩
        exact ih (h := h.withBlanks [c]) unclosed written blanks _
      · have starless : '*' ∉ h.gap := by
          rw [gap, if_pos written]
          intro member
          rcases List.mem_append.1 member with newline | old
          · cases List.eq_of_mem_replicate newline
          · cases blank '*' old
        rw [lay_prints prints, Lexeme.blockTail_append_of_not_mem starless, Lexeme.blockTail_cons,
          if_neg, ih (h := clear) unclosed rfl (by simp [clear]) _]
        · rfl
        · rintro ⟨star, slash⟩
          obtain ⟨-, -, first⟩ := head?_lay (h := clear) (by decide) rfl (by simp [clear]) slash
          exact apart ⟨star, first⟩

/-- A text and its layout agree up to where the lexemes before have ended. -/
theorem alike_lay {offset : Nat} {segments : List Segment} (clean : Clean segments)
    (guarded : Guarded isProtected offset segments) :
    Alike (textOf segments) (Held.clear.lay isProtected offset (textOf segments)) := by
  induction segments generalizing offset with
  | nil =>
    have ended : Ended [] := by simp [Ended]
    have behind : Ended (Held.clear.lay isProtected offset []) := ended_lay ended offset
    exact ⟨[], _, _, rfl, rfl, ended, behind⟩
  | cons s rest ih =>
    have apart (ended : Ended (textOf (s :: rest))) :
        Alike (textOf (s :: rest)) (Held.clear.lay isProtected offset (textOf (s :: rest))) :=
      ⟨[], _, _, rfl, rfl, ended, ended_lay ended offset⟩
    rcases clean.cases_head with ⟨c, rfl, space⟩ | ⟨token, known, shape⟩
    · refine apart ?_
      rintro d ⟨⟩
      exact Lexeme.isBlank_of_isSpace space
    obtain ⟨_, text⟩ := s
    cases known
    have step (other : token ≠ .newline) := lay_lexeme clean guarded other Held.clear
    cases shape with
    | newline =>
      refine apart ?_
      rintro d ⟨⟩
      rfl
    | @line body within stops =>
      have ended : Ended (textOf rest) := by
        intro c head
        rw [stops c head]
        rfl
      obtain ⟨tail, trimmed, blank, -⟩ := Text.trimEnd_eq_append ('/' :: '/' :: body)
      rw [textOf_cons, step (by decide)]
      refine ⟨trimEnd ('/' :: '/' :: body), tail ++ textOf rest, _, ?_, rfl, ?_,
        ended_lay ended _⟩
      · rw [← List.append_assoc, ← trimmed]
      · rcases tail with _ | ⟨t, tail⟩
        · exact ended
        · rintro d ⟨⟩
          exact blank t (by simp)
    | closed nonempty begins ends lines block plain =>
      obtain ⟨same, first, second, one, other, ended, ended'⟩ := ih clean.tail guarded.2
      rw [textOf_cons, step plain, Text.trimEnd_of_last ends, other, one]
      exact ⟨text ++ same, first, second, by simp, by simp, ended, ended'⟩

/-- A lexeme is found at its place in the layout. -/
theorem fits_lay {offset : Nat} {token : Token} {text : List Char} {rest : List Segment}
    (clean : Clean (⟨some token, text⟩ :: rest))
    (guarded : Guarded isProtected offset (⟨some token, text⟩ :: rest)) (other : token ≠ .newline) :
    Segment.Fits (Held.clear.lay isProtected (offset + Utf8.size text) (textOf rest))
      ⟨some token, trimEnd text⟩ := by
  have fits := clean.lexed.1
  have real : token ≠ .stray := by simpa using clean.real _ List.mem_cons_self
  rw [List.append_nil] at fits
  rcases clean.cases_head with ⟨c, wrong, -⟩ | ⟨token', known, shape⟩
  · cases wrong
  cases known
  cases shape with
  | newline => exact absurd rfl other
  | @line body within stops =>
    obtain ⟨tail, trimmed, -, -⟩ := Text.trimEnd_eq_append body
    rw [trimmed, List.mem_append, not_or] at within
    rw [Text.trimEnd_cons (by decide), Text.trimEnd_cons (by decide)]
    refine Lexeme.at?_lineComment within.1 fun c head => ?_
    rcases guarded.2.eq_nil_or_newline clean.tail stops with empty | ⟨outside, after, same⟩
    · rw [empty] at head
      exact (Option.some.inj head).symm
    · rw [same, lay_newline outside, head?_lay_of_breaks rfl (Nat.succ_pos _)] at head
      exact (Option.some.inj head).symm
  | closed nonempty begins ends lines block plain =>
    rw [Text.trimEnd_of_last ends]
    rcases text with _ | ⟨c, inner⟩
    · exact absurd rfl nonempty
    refine Lexeme.at?_congr fits (alike_lay clean.tail guarded.2) real block ?_
    intro tail same unclosed
    rw [same, lay_prints (.inl (by decide))]
    exact ⟨_, rfl, blockTail_lay unclosed rfl (by simp [Held.clear]) _⟩

theorem lexedBefore_gapSegments {h : Held} (spaces : ∀ c ∈ h.blanks, Lexeme.isSpace c)
    (rest : List Char) : LexedBefore rest h.gapSegments := by
  have newlines (n : Nat) (rest : List Char) :
      LexedBefore rest (List.replicate n ⟨some .newline, ['\n']⟩) := by
    induction n with
    | zero => trivial
    | succ n ih => exact ⟨rfl, ih⟩
  have blanks {cs : List Char} (spaces : ∀ c ∈ cs, Lexeme.isSpace c) :
      LexedBefore rest (cs.map fun c => ⟨none, [c]⟩) := by
    induction cs with
    | nil => trivial
    | cons c cs ih =>
      obtain ⟨first, others⟩ := List.forall_mem_cons.1 spaces
      exact ⟨⟨rfl, Lexeme.at?_space first _⟩, ih others⟩
  refine lexedBefore_append.2 ⟨?_, blanks spaces⟩
  split
  · exact newlines _ _
  · trivial

/-- The segments of the layout are those of its text. -/
theorem lexedBefore_tidy {offset : Nat} {segments : List Segment} (clean : Clean segments)
    (guarded : Guarded isProtected offset segments) {h : Held}
    (spaces : ∀ c ∈ h.blanks, Lexeme.isSpace c) : LexedBefore [] (h.tidy segments) := by
  induction segments generalizing offset h with
  | nil =>
    rw [tidy]
    split
    · exact ⟨rfl, trivial⟩
    · trivial
  | cons s rest ih =>
    rcases clean.cases_segment with ⟨c, rfl, space⟩ | rfl | ⟨token, text, rfl, other⟩
    · rw [tidy]
      have spaces : ∀ d ∈ h.blanks ++ [c], Lexeme.isSpace d :=
        List.forall_mem_append.2 ⟨spaces, by simpa using space⟩
      exact ih (h := h.withBlanks [c]) clean.tail guarded.2 spaces
    · rw [tidy]
      exact ih (h := h.withBreak) clean.tail guarded.2 (by simp [withBreak])
    · rw [tidy_lexeme other, lexedBefore_append]
      refine ⟨lexedBefore_gapSegments spaces _, ?_,
        ih (h := Held.clear) clean.tail guarded.2 (by simp [Held.clear])⟩
      rw [List.append_nil, ← lay_eq_textOf_tidy clean.tail guarded.2]
      exact fits_lay clean guarded other

theorem real_gapSegments (h : Held) : ∀ s ∈ h.gapSegments, s.token ≠ some .stray := by
  intro s member
  rcases List.mem_append.1 member with newline | blank
  · split at newline
    · rw [List.eq_of_mem_replicate newline]
      simp
    · cases newline
  · obtain ⟨c, -, rfl⟩ := List.mem_map.1 blank
    simp

theorem real_tidy {segments : List Segment} (real : ∀ s ∈ segments, s.token ≠ some .stray)
    (h : Held) : ∀ s ∈ h.tidy segments, s.token ≠ some .stray := by
  induction segments generalizing h with
  | nil =>
    rw [tidy]
    split <;> simp
  | cons s rest ih =>
    obtain ⟨here, later⟩ := List.forall_mem_cons.1 real
    rw [tidy]
    split
    · exact ih later _
    · exact ih later _
    · rename_i token _ known
      rw [known] at here
      exact List.forall_mem_append.2 ⟨real_gapSegments h, List.forall_mem_cons.2 ⟨here, ih later _⟩⟩

/-! ### The words of the layout -/

theorem words_gapSegments (newline : Bool) (h : Held) (rest : List Segment) :
    words newline (h.gapSegments ++ rest) =
      words (newline || (h.written && decide (0 < h.breaks))) rest := by
  obtain ⟨written, breaks, blanks⟩ := h
  have blank (newline : Bool) (cs : List Char) :
      words newline ((cs.map fun c => ⟨none, [c]⟩) ++ rest) = words newline rest := by
    induction cs with
    | nil => rfl
    | cons c cs ih => simpa [words, Segment.word?, Segment.isNewline] using ih
  rw [gapSegments, List.append_assoc]
  cases written with
  | false => simp [blank]
  | true =>
    rcases breaks with _ | _ | breaks
    · simp [blank]
    · simp [words, Segment.word?, Segment.isNewline, blank]
    · simp [List.replicate, words, Segment.word?, Segment.isNewline, blank]

/-- A word has no blank at its end. -/
theorem trimEnd_eq {token : Token} {text : List Char} {rest : List Segment}
    (clean : Clean (⟨some token, text⟩ :: rest)) (plain : token ≠ .comment)
    (other : token ≠ .newline) : trimEnd text = text := by
  rcases clean.cases_head with ⟨c, wrong, -⟩ | ⟨token', known, shape⟩
  · cases wrong
  cases known
  cases shape with
  | newline => exact absurd rfl other
  | line => exact absurd rfl plain
  | closed nonempty begins ends => exact Text.trimEnd_of_last ends

theorem word?_of_ne {token : Token} (plain : token ≠ .comment) (other : token ≠ .newline)
    (text : List Char) : Segment.word? ⟨some token, text⟩ = some token := by
  cases token <;> first | rfl | contradiction

/-- The words of a lexeme and what follows it, by the words of what follows it. -/
theorem words_trimmed {token : Token} {text : List Char} {rest rest' : List Segment}
    (clean : Clean (⟨some token, text⟩ :: rest)) (other : token ≠ .newline)
    (same : ∀ newline, words newline rest' = words newline rest) (newline : Bool) :
    words newline (⟨some token, trimEnd text⟩ :: rest') =
      words newline (⟨some token, text⟩ :: rest) := by
  by_cases comment : token = .comment
  · subst comment
    have apart : (some Token.comment == some Token.newline) = false := rfl
    simp [words, Segment.word?, Segment.isNewline, apart, same]
  · rw [trimEnd_eq clean comment other, words_of_word (word?_of_ne comment other _),
      words_of_word (word?_of_ne comment other _), same]

theorem words_tidy {segments : List Segment} (clean : Clean segments) {h : Held}
    (written : h.written) (newline : Bool) :
    words newline (h.tidy segments) = words (newline || decide (0 < h.breaks)) segments := by
  induction segments generalizing newline h with
  | nil => rw [tidy, if_pos written]; rfl
  | cons s rest ih =>
    rcases clean.cases_segment with ⟨c, rfl, space⟩ | rfl | ⟨token, text, rfl, other⟩
    · have gapless (newline : Bool) : words newline (⟨none, [c]⟩ :: rest) = words newline rest := by
        simp [words, Segment.word?, Segment.isNewline]
      rw [gapless]
      exact ih (h := h.withBlanks [c]) clean.tail written newline
    · have later := ih (h := h.withBreak) clean.tail written newline
      simpa [tidy, words, Segment.word?, Segment.isNewline, withBreak] using later
    · rw [tidy_lexeme other, words_gapSegments, written, Bool.true_and]
      refine words_trimmed clean other (fun newline => ?_) _
      simpa [Held.clear] using ih (h := Held.clear) clean.tail rfl newline

/-- At the start of a file the layout may drop newlines before the first word. -/
theorem unflag_words_tidy {segments : List Segment} (clean : Clean segments) {h : Held}
    (first : h.written = false) (newline : Bool) :
    unflag (words newline (h.tidy segments)) = unflag (words newline segments) := by
  induction segments generalizing h with
  | nil => rw [tidy, if_neg (by simp [first])]
  | cons s rest ih =>
    rcases clean.cases_segment with ⟨c, rfl, space⟩ | rfl | ⟨token, text, rfl, other⟩
    · have later := ih (h := h.withBlanks [c]) clean.tail first
      simpa [tidy, words, Segment.word?, Segment.isNewline] using later
    · have later := ih (h := h.withBreak) clean.tail first
      have same := unflag_words newline true rest
      simpa [tidy, words, Segment.word?, Segment.isNewline] using later.trans same
    · rw [tidy_lexeme other, words_gapSegments, first, Bool.false_and, Bool.or_false]
      refine congrArg unflag (words_trimmed clean other (fun newline => ?_) _)
      simpa [Held.clear] using words_tidy clean.tail (h := Held.clear) rfl newline

end Held

end Marginalia.Layout
