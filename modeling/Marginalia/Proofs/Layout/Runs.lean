/-
Module: Marginalia.Proofs.Layout.Runs
Purpose: The canonical layout rewrites the runs of blanks of a text and keeps all else.
Main exports:
  shielded, loose, marks, Runs, Runs.Of, Runs.ofMarks, Runs.laid, canonicalize_eq_laid
-/
import Marginalia.Proofs.Layout.Characters
import Mathlib.Data.List.DropRight

namespace Marginalia.Layout

open Go (Span)
open Text (isBlank)

/-!
A text is cut into runs of blanks and the words between them. A blank inside a protected span that
contains a newline belongs to the word around it. The layout keeps every word and rewrites every
run by its newlines and by its place: first, between two words, or last.
-/

/-! ### Loose blanks -/

/-- Whether an offset lies in a protected span that contains a newline. -/
def shielded (isProtected : List Span) (source : List Char) (offset : Nat) : Bool :=
  isProtected.any fun s =>
    s.start ≤ offset && offset < s.stop && ((s.slice? source).getD []).contains '\n'

/-- Whether a character is a blank outside the protected spans that contain a newline. -/
def loose (isProtected : List Span) (source : List Char) (offset : Nat) (c : Char) : Bool :=
  isBlank c && !shielded isProtected source offset

/-- The characters of a text from an offset on, each with the result of a test. -/
def marksFrom (test : Nat → Char → Bool) (offset : Nat) : List Char → List (Char × Bool)
  | [] => []
  | c :: cs => (c, test offset c) :: marksFrom test (offset + c.utf8Size) cs

/-- The characters of a text, each with whether it is a loose blank. -/
def marks (isProtected : List Span) (source : List Char) : List (Char × Bool) :=
  marksFrom (loose isProtected source) 0 source

/-! ### Runs -/

/-- Characters that are no loose blanks, and the loose blanks after them. -/
structure Word where
  body : List Char
  run : List Char
deriving Repr, DecidableEq

/-- The characters of a word, each with whether it is a loose blank. -/
def Word.marked (w : Word) : List (Char × Bool) :=
  w.body.map (·, false) ++ w.run.map (·, true)

/-- A text cut at its runs of loose blanks: the run that it starts with, and the words. -/
structure Runs where
  lead : List Char
  words : List Word
deriving Repr, DecidableEq

namespace Runs

/-- The runs of marked characters. A run stops only where a word starts, and a word only where a run
starts or the text ends. -/
structure Of (r : Runs) (marked : List (Char × Bool)) : Prop where
  whole : marked = r.lead.map (·, true) ++ r.words.flatMap Word.marked
  bodies : ∀ w ∈ r.words, w.body ≠ []
  runs : ∀ w ∈ r.words.dropLast, w.run ≠ []

/-- Put a character that is no loose blank in front of a cut text: it starts a word, or goes on with
the first one. -/
def push (c : Char) : Runs → Runs
  | ⟨[], w :: words⟩ => ⟨[], ⟨c :: w.body, w.run⟩ :: words⟩
  | ⟨run, words⟩ => ⟨[], ⟨[c], run⟩ :: words⟩

/-- Cut marked characters at the runs. -/
def ofMarks : List (Char × Bool) → Runs
  | [] => ⟨[], []⟩
  | (c, true) :: rest => ⟨c :: (ofMarks rest).lead, (ofMarks rest).words⟩
  | (c, false) :: rest => (ofMarks rest).push c

theorem Of.push {r : Runs} {marked : List (Char × Bool)} (of : r.Of marked) (c : Char) :
    (r.push c).Of ((c, false) :: marked) := by
  obtain ⟨lead, words⟩ := r
  obtain ⟨rfl, bodies, runs⟩ := of
  rcases lead with _ | ⟨d, lead⟩
  · rcases words with _ | ⟨w, words⟩
    · exact ⟨by simp [Runs.push, Word.marked], by simp [Runs.push], by simp [Runs.push]⟩
    · refine ⟨by simp [Runs.push, Word.marked], ?_, ?_⟩
      · obtain ⟨-, others⟩ := List.forall_mem_cons.1 bodies
        exact List.forall_mem_cons.2 ⟨by simp, others⟩
      · cases words with
        | nil => simp [Runs.push]
        | cons next words =>
          obtain ⟨first, others⟩ := List.forall_mem_cons.1 runs
          exact List.forall_mem_cons.2 ⟨first, others⟩
  · refine ⟨by simp [Runs.push, Word.marked], ?_, ?_⟩
    · exact List.forall_mem_cons.2 ⟨by simp, bodies⟩
    · cases words with
      | nil => simp [Runs.push]
      | cons next words => exact List.forall_mem_cons.2 ⟨by simp, runs⟩

/-- Every text is cut at its runs. -/
theorem of_ofMarks (marked : List (Char × Bool)) : (ofMarks marked).Of marked := by
  induction marked with
  | nil => exact ⟨rfl, by simp [ofMarks], by simp [ofMarks]⟩
  | cons m marked ih =>
    obtain ⟨c, loose⟩ := m
    cases loose with
    | false => exact ih.push c
    | true =>
      refine ⟨?_, ih.bodies, ih.runs⟩
      conv_lhs => rw [ih.whole]
      rfl

/-! ### The layout of runs -/

/-- The part of a run after its last newline, all of it if it has none. -/
def afterBreak (run : List Char) : List Char :=
  run.rtakeWhile (· != '\n')

/-- A run between two words. At most one empty line stays. -/
def squeezed (run : List Char) : List Char :=
  match run.count '\n' with
  | 0 => run
  | 1 => '\n' :: afterBreak run
  | _ => '\n' :: '\n' :: afterBreak run

/-- Words with the runs between them, and a newline for the run after the last. -/
def laidWords : List Word → List Char
  | [] => []
  | [w] => w.body ++ ['\n']
  | w :: words => w.body ++ squeezed w.run ++ laidWords words

/-- The layout of a cut text; without words it is empty. -/
def laid (r : Runs) : List Char :=
  if r.words = [] then [] else afterBreak r.lead ++ laidWords r.words

theorem afterBreak_of_not_mem {run : List Char} (clear : '\n' ∉ run) : afterBreak run = run := by
  rw [afterBreak, List.rtakeWhile_eq_self_iff]
  intro c member
  rw [bne_iff_ne]
  rintro rfl
  exact clear member

theorem afterBreak_concat (run : List Char) (c : Char) :
    afterBreak (run ++ [c]) = if c = '\n' then [] else afterBreak run ++ [c] := by
  rw [afterBreak, List.rtakeWhile_concat]
  by_cases newline : c = '\n'
  · simp [newline]
  · simp [newline, afterBreak]

theorem gap_eq_squeezed (run : List Char) :
    (Held.mk true (run.count '\n') (afterBreak run)).gap = squeezed run := by
  unfold squeezed Held.gap
  cases newlines : run.count '\n' with
  | zero => simp [afterBreak_of_not_mem (List.count_eq_zero.1 newlines)]
  | succ n =>
    cases n with
    | zero => rfl
    | succ n => simp

end Runs

/-! ### Marks -/

section Marks

variable {test : Nat → Char → Bool}

theorem length_marksFrom (offset : Nat) (cs : List Char) :
    (marksFrom test offset cs).length = cs.length := by
  induction cs generalizing offset with
  | nil => rfl
  | cons c cs ih => simp [marksFrom, ih]

theorem map_fst_marksFrom (offset : Nat) (cs : List Char) :
    (marksFrom test offset cs).map Prod.fst = cs := by
  induction cs generalizing offset with
  | nil => rfl
  | cons c cs ih => simp [marksFrom, ih]

theorem marksFrom_append (offset : Nat) (cs ds : List Char) :
    marksFrom test offset (cs ++ ds) =
      marksFrom test offset cs ++ marksFrom test (offset + Utf8.size cs) ds := by
  induction cs generalizing offset with
  | nil => simp [marksFrom]
  | cons c cs ih => simp [marksFrom, ih, Nat.add_assoc]

/-- A stretch of marked characters stands where as many characters of the text stand. -/
theorem marksFrom_eq_append {offset : Nat} {cs ds : List Char} {mark : Bool}
    {rest : List (Char × Bool)}
    (marked : marksFrom test offset (cs ++ ds) = cs.map (·, mark) ++ rest) :
    marksFrom test offset cs = cs.map (·, mark) ∧
      marksFrom test (offset + Utf8.size cs) ds = rest := by
  rw [marksFrom_append] at marked
  exact List.append_inj marked (by simp [length_marksFrom])

theorem test_of_marksFrom {offset : Nat} {cs : List Char} {mark : Bool}
    (marked : marksFrom test offset cs = cs.map (·, mark)) {before after : List Char} {c : Char}
    (same : cs = before ++ c :: after) : test (offset + Utf8.size before) c = mark := by
  rw [same, List.map_append] at marked
  obtain ⟨-, later⟩ := marksFrom_eq_append marked
  rw [marksFrom, List.map_cons, List.cons.injEq, Prod.mk.injEq] at later
  exact later.1.2

end Marks

/-! ### Shielded characters -/

variable {isProtected : List Span} {source : List Char}

theorem shielded_iff {offset : Nat} :
    shielded isProtected source offset ↔ ∃ s ∈ isProtected,
      (s.start ≤ offset ∧ offset < s.stop) ∧ '\n' ∈ (s.slice? source).getD [] := by
  simp [shielded]

section Solid

variable (solid : ∀ s ∈ isProtected, isSolid source s)

include solid

/-- A newline is shielded exactly where it is protected. -/
theorem shielded_newline {pre post : List Char} (whole : source = pre ++ '\n' :: post) :
    shielded isProtected source (Utf8.size pre) ↔ inside isProtected (Utf8.size pre) := by
  rw [shielded_iff, inside_iff]
  constructor
  · rintro ⟨s, member, ⟨first, last⟩, -⟩
    obtain ⟨before, inner, after, stands⟩ := exists_stands (solid s member)
    obtain ⟨front, back, rfl, split, -⟩ := stands.split whole first last
    -- the span does not start with the newline
    obtain ⟨preceded, -⟩ := stands.ne_nil_of_blank split (by decide)
    have more := Utf8.size_pos preceded
    refine ⟨s, member, ?_, last⟩
    rw [stands.start, Utf8.size_append]
    omega
  · rintro ⟨s, member, first, last⟩
    obtain ⟨before, inner, after, stands⟩ := exists_stands (solid s member)
    obtain ⟨front, back, rfl, split, -⟩ := stands.split whole (by omega) last
    refine ⟨s, member, ⟨by omega, last⟩, ?_⟩
    rw [stands.slice?, split]
    simp

/-- A shielded blank is not the last character of its span: the next one is shielded too. -/
theorem shielded_next {pre post : List Char} {c : Char} (whole : source = pre ++ c :: post)
    (blank : isBlank c) (within : shielded isProtected source (Utf8.size pre)) :
    post ≠ [] ∧ shielded isProtected source (Utf8.size pre + c.utf8Size) := by
  obtain ⟨s, member, ⟨first, last⟩, newline⟩ := shielded_iff.1 within
  obtain ⟨before, inner, after, stands⟩ := exists_stands (solid s member)
  obtain ⟨front, back, rfl, split, rfl⟩ := stands.split whole first last
  obtain ⟨-, followed⟩ := stands.ne_nil_of_blank split blank
  have more := Utf8.size_pos followed
  have stop := stands.stop
  rw [split, Utf8.size_append, Utf8.size_cons] at stop
  constructor
  · simp [followed]
  · rw [shielded_iff]
    refine ⟨s, member, ⟨by omega, ?_⟩, newline⟩
    rw [Utf8.size_append]
    omega

/-! ### Writing runs and words -/

/-- A run is held back whole. -/
theorem run_of_loose {pre run post : List Char} (whole : source = pre ++ (run ++ post))
    (marked : marksFrom (loose isProtected source) (Utf8.size pre) run = run.map (·, true))
    (written : Bool) :
    Held.run isProtected ⟨written, 0, []⟩ (Utf8.size pre) run =
      ([], ⟨written, run.count '\n', Runs.afterBreak run⟩) := by
  induction run using List.reverseRecOn generalizing post with
  | nil => rfl
  | append_singleton run c ih =>
    have here := test_of_marksFrom marked (rfl : run ++ [c] = run ++ c :: [])
    rw [List.map_append] at marked
    have earlier := ih (by rw [whole, List.append_assoc]) (marksFrom_eq_append marked).1
    simp only [loose, Bool.and_eq_true, Bool.not_eq_true'] at here
    obtain ⟨blank, free⟩ := here
    rw [Held.run_concat, earlier, Runs.afterBreak_concat]
    by_cases newline : c = '\n'
    · subst newline
      have place : source = (pre ++ run) ++ '\n' :: post := by
        rw [whole]
        simp
      have outside : inside isProtected (Utf8.size pre + Utf8.size run) = false := by
        rw [← Utf8.size_append, ← Bool.not_eq_true, ← shielded_newline solid place,
          Utf8.size_append, free]
        exact Bool.false_ne_true
      rw [Held.step_newline outside]
      simp
    · rw [Held.step_blank blank newline]
      simp [newline]

/-- The body of a word is written whole. -/
theorem run_of_body {pre body run post : List Char}
    (whole : source = pre ++ (body ++ (run ++ post))) (nonempty : body ≠ [])
    (stops : run = [] → post = [])
    (marked : marksFrom (loose isProtected source) (Utf8.size pre) body = body.map (·, false))
    (marked' : marksFrom (loose isProtected source) (Utf8.size pre + Utf8.size body) run =
      run.map (·, true)) (h : Held) :
    h.run isProtected (Utf8.size pre) body = (h.gap ++ body, .clear) := by
  -- a blank of the body is shielded
  have sheltered (before after : List Char) (c : Char) (same : body = before ++ c :: after)
      (blank : isBlank c) :
      source = (pre ++ before) ++ c :: (after ++ (run ++ post)) ∧
        shielded isProtected source (Utf8.size (pre ++ before)) := by
    have kept := test_of_marksFrom marked same
    rw [loose, blank, Bool.true_and, Bool.not_eq_false'] at kept
    rw [Utf8.size_append]
    exact ⟨by rw [whole, same]; simp, kept⟩
  obtain ⟨front, c, rfl⟩ := (List.eq_nil_or_concat' body).resolve_left nonempty
  apply Held.run_core
  · intro before after same
    obtain ⟨place, within⟩ := sheltered before (after ++ [c]) '\n' (by rw [same]; simp) (by decide)
    rw [← Utf8.size_append]
    exact (shielded_newline solid place).1 within
  · -- if the last character were a blank, the next one would be shielded
    cases blank : isBlank c with
    | false => exact .inl blank
    | true =>
      obtain ⟨place, within⟩ := sheltered front [] c rfl blank
      obtain ⟨more, next⟩ := shielded_next solid place blank within
      cases run with
      | nil => exact absurd (stops rfl) (by simpa using more)
      | cons d run =>
        have free := test_of_marksFrom marked' (List.nil_append (d :: run)).symm
        rw [loose, Bool.and_eq_true, Bool.not_eq_true'] at free
        have same : Utf8.size (pre ++ front) + c.utf8Size =
            Utf8.size pre + Utf8.size (front ++ [c]) + Utf8.size [] := by
          simp [Utf8.size_append, Nat.add_assoc]
        rw [same, free.2] at next
        cases next

/-- Words are written with what is held back before them. -/
theorem lay_words {pre : List Char} {words : List Word} (nonempty : words ≠ [])
    (whole : source = pre ++ words.flatMap fun w => w.body ++ w.run)
    (marked : marksFrom (loose isProtected source) (Utf8.size pre)
      (words.flatMap fun w => w.body ++ w.run) = words.flatMap Word.marked)
    (bodies : ∀ w ∈ words, w.body ≠ []) (runs : ∀ w ∈ words.dropLast, w.run ≠ []) (h : Held) :
    h.lay isProtected (Utf8.size pre) (words.flatMap fun w => w.body ++ w.run) =
      h.gap ++ Runs.laidWords words := by
  induction words generalizing pre h with
  | nil => exact absurd rfl nonempty
  | cons w words ih =>
    obtain ⟨first, others⟩ := List.forall_mem_cons.1 bodies
    rw [List.flatMap_cons, List.append_assoc] at whole
    rw [List.flatMap_cons, List.flatMap_cons, Word.marked, List.append_assoc,
      List.append_assoc] at marked
    obtain ⟨kept, later⟩ := marksFrom_eq_append marked
    obtain ⟨freed, later⟩ := marksFrom_eq_append later
    have stops : w.run = [] → words.flatMap (fun w => w.body ++ w.run) = [] := by
      intro empty
      cases words with
      | nil => rfl
      | cons next words => exact absurd empty (runs w List.mem_cons_self)
    have body := run_of_body solid whole first stops kept freed h
    have place : source = (pre ++ w.body) ++
        (w.run ++ words.flatMap fun w => w.body ++ w.run) := by
      rw [whole]
      simp
    have run := run_of_loose solid place (by rwa [Utf8.size_append]) true
    rw [List.flatMap_cons, List.append_assoc, Held.lay_append, body, ← Utf8.size_append,
      Held.lay_append]
    simp only [Held.clear]
    rw [run]
    cases words with
    | nil => simp [Held.lay, Held.run_nil, Held.close, Runs.laidWords]
    | cons next words =>
      have place' : source = (pre ++ w.body ++ w.run) ++
          (next :: words).flatMap fun w => w.body ++ w.run := by
        rw [place, List.append_assoc (pre ++ w.body)]
      have rest := ih (List.cons_ne_nil _ _) place' (by rwa [Utf8.size_append, Utf8.size_append])
        others (fun v member => runs v (List.mem_cons_of_mem _ member))
        ⟨true, w.run.count '\n', Runs.afterBreak w.run⟩
      rw [Utf8.size_append] at rest
      simp only [rest, Runs.gap_eq_squeezed, Runs.laidWords]
      simp

end Solid

/-- The canonical layout rewrites the runs of loose blanks of a text and keeps all else: the text is
cut at its runs in one way, and its layout is that of the runs. -/
theorem canonicalize_eq_laid (solid : ∀ s ∈ isProtected, isSolid source s) :
    (∃ r : Runs, r.Of (marks isProtected source)) ∧
      ∀ r : Runs, r.Of (marks isProtected source) → canonicalize isProtected source = r.laid := by
  refine ⟨⟨_, Runs.of_ofMarks _⟩, ?_⟩
  rintro ⟨lead, words⟩ ⟨cut, bodies, runs⟩
  have whole : source = lead ++ words.flatMap fun w => w.body ++ w.run := by
    have text := congrArg (List.map Prod.fst) cut
    rw [marks, map_fst_marksFrom] at text
    simpa [List.map_flatMap, Word.marked, Function.comp_def] using text
  have marked : marksFrom (loose isProtected source) 0
      (lead ++ words.flatMap fun w => w.body ++ w.run) =
        lead.map (·, true) ++ words.flatMap Word.marked := by
    rw [← whole]
    exact cut
  obtain ⟨freed, later⟩ := marksFrom_eq_append marked
  have place : source = [] ++ (lead ++ words.flatMap fun w => w.body ++ w.run) := whole
  have run := run_of_loose solid place freed false
  rw [Utf8.size_nil] at run
  have laid : canonicalize isProtected source =
      Held.lay isProtected ⟨false, lead.count '\n', Runs.afterBreak lead⟩ (0 + Utf8.size lead)
        (words.flatMap fun w => w.body ++ w.run) := by
    rw [canonicalize_eq_lay solid]
    nth_rewrite 1 [whole]
    rw [Held.lay_append, Held.start, run, List.nil_append]
  rw [laid, Runs.laid]
  by_cases wordless : words = []
  · simp [wordless, Held.lay, Held.run_nil, Held.close]
  · rw [if_neg wordless, Nat.zero_add, lay_words solid wordless whole _ bodies runs]
    · rfl
    · rwa [Nat.zero_add] at later

/-- Spans in any order, one over a raw string with empty lines, one within a line, after a leading
run with a blank of three bytes. -/
theorem canonicalize_eq_laid_raw_string :
    let source := "\n\u3000a\t\n\n \n`b \n\n c` \n".toList
    let spans : List Span := [⟨10, 18⟩, ⟨4, 5⟩]
    (∀ s ∈ spans, isSolid source s) ∧
      canonicalize spans source = "\u3000a\n\n`b \n\n c`\n".toList := by
  intro source spans
  have solid : ∀ s ∈ spans, isSolid source s := by decide
  obtain ⟨-, layout⟩ := canonicalize_eq_laid solid
  exact ⟨solid, (layout _ (Runs.of_ofMarks _)).trans (by decide)⟩

end Marginalia.Layout
