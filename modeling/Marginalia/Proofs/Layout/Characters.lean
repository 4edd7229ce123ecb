/-
Module: Marginalia.Proofs.Layout.Characters
Purpose: The canonical layout, character by character instead of line by line.
Main exports:
  isSolid, Held, Held.step, Held.run, Held.run_append, Held.reach_of_protected,
  canonicalize_eq_lay
-/
import Marginalia.Layout
import Marginalia.Proofs.Go.Span
import Marginalia.Proofs.Text.Chars

namespace Marginalia.Layout

open Go (Span)
open Text (isBlank trimEnd splitOn)

/-! ### Spans from and to characters that are no blanks -/

/-- Whether a span has a text, and that text starts and ends with a character that is no blank. -/
def isSolid (source : List Char) (s : Span) : Bool :=
  match s.slice? source with
  | some inner => inner.head?.any (!isBlank ·) && inner.getLast?.any (!isBlank ·)
  | none => false

/-- Where a span stands: what is before it, in it and after it. -/
structure Stands (source : List Char) (s : Span) (before inner after : List Char) : Prop where
  whole : source = before ++ (inner ++ after)
  start : s.start = Utf8.size before
  stop : s.stop = Utf8.size before + Utf8.size inner
  first : ∃ c rest, inner = c :: rest ∧ isBlank c = false
  last : ∃ rest c, inner = rest ++ [c] ∧ isBlank c = false

theorem exists_stands {source : List Char} {s : Span} (solid : isSolid source s) :
    ∃ before inner after, Stands source s before inner after := by
  unfold isSolid at solid
  split at solid
  · rename_i inner found
    obtain ⟨before, after, whole, start, stop⟩ := Span.slice?_eq_some_iff.1 found
    simp only [Bool.and_eq_true, Option.any_eq_true, Bool.not_eq_true'] at solid
    obtain ⟨⟨c, head, plain⟩, d, tail, plain'⟩ := solid
    obtain ⟨rest, begins⟩ := List.head?_eq_some_iff.1 head
    obtain ⟨rest', ends⟩ := List.getLast?_eq_some_iff.1 tail
    exact ⟨before, inner, after, whole, start, stop, ⟨c, rest, begins, plain⟩,
      rest', d, ends, plain'⟩
  · cases solid

theorem Stands.slice? {source : List Char} {s : Span} {before inner after : List Char}
    (stands : Stands source s before inner after) : s.slice? source = some inner :=
  Span.slice?_eq_some_iff.2 ⟨before, after, stands.whole, stands.start, stands.stop⟩

theorem Stands.isSolid {source : List Char} {s : Span} {before inner after : List Char}
    (stands : Stands source s before inner after) : isSolid source s := by
  obtain ⟨c, rest, begins, plain⟩ := stands.first
  obtain ⟨rest', d, ends, plain'⟩ := stands.last
  have head : inner.head? = some c := List.head?_eq_some_iff.2 ⟨rest, begins⟩
  have tail : inner.getLast? = some d := List.getLast?_eq_some_iff.2 ⟨rest', ends⟩
  simp [Layout.isSolid, stands.slice?, head, tail, plain, plain']

/-- No span goes beyond the text. -/
theorem Stands.stop_le {source : List Char} {s : Span} {before inner after : List Char}
    (stands : Stands source s before inner after) : s.stop ≤ Utf8.size source := by
  rw [stands.stop, stands.whole, Utf8.size_append, Utf8.size_append]
  omega

/-- A blank in a span is neither its first character nor its last. -/
theorem Stands.ne_nil_of_blank {source : List Char} {s : Span} {before inner after : List Char}
    (stands : Stands source s before inner after) {front back : List Char} {c : Char}
    (split : inner = front ++ c :: back) (blank : isBlank c) : front ≠ [] ∧ back ≠ [] := by
  constructor
  · rintro rfl
    obtain ⟨d, rest, begins, plain⟩ := stands.first
    rw [begins, List.nil_append, List.cons.injEq] at split
    rw [split.1, blank] at plain
    cases plain
  · rintro rfl
    obtain ⟨rest, d, ends, plain⟩ := stands.last
    obtain ⟨-, same⟩ := List.append_inj' (split.symm.trans ends) rfl
    rw [List.cons.injEq] at same
    rw [← same.1, blank] at plain
    cases plain

/-- A character within a span is a character of its text. -/
theorem Stands.split {source : List Char} {s : Span} {before inner after : List Char}
    (stands : Stands source s before inner after) {pre post : List Char} {c : Char}
    (whole : source = pre ++ c :: post) (first : s.start ≤ Utf8.size pre)
    (last : Utf8.size pre < s.stop) :
    ∃ front back, pre = before ++ front ∧ inner = front ++ c :: back ∧ post = back ++ after := by
  rw [stands.start] at first
  rw [stands.stop] at last
  exact Go.exists_split_of_within (stands.whole.symm.trans whole) first last

/-- Whether a newline at an offset is protected. -/
def inside (isProtected : List Span) (offset : Nat) : Bool :=
  isProtected.any fun s => s.start < offset && offset < s.stop

theorem inside_iff {isProtected : List Span} {offset : Nat} :
    inside isProtected offset ↔ ∃ s ∈ isProtected, s.start < offset ∧ offset < s.stop := by
  simp [inside]

theorem inside_eq_false_iff {isProtected : List Span} {offset : Nat} :
    inside isProtected offset = false ↔ ∀ s ∈ isProtected, s.start < offset → s.stop ≤ offset := by
  simp [inside]

/-! ### The layout as a run over the characters -/

/-- What is held back until a character follows that is no blank: a number of line breaks and the
blanks after the last of them. `written` tells whether anything was written before. -/
structure Held where
  written : Bool
  breaks : Nat
  blanks : List Char

namespace Held

/-- Nothing is written yet. -/
def start : Held := ⟨false, 0, []⟩

/-- The last character was written. -/
def clear : Held := ⟨true, 0, []⟩

/-- What is written for the blanks before a character. -/
def gap (h : Held) : List Char :=
  (if h.written then List.replicate (min h.breaks 2) '\n' else []) ++ h.blanks

/-- What is written for the blanks at the end. -/
def close (h : Held) : List Char :=
  if h.written then ['\n'] else []

/-- What is written when a character comes, and what is held back then. -/
def step (isProtected : List Span) (h : Held) (offset : Nat) (c : Char) : List Char × Held :=
  if c = '\n' ∧ inside isProtected offset = false then
    ([], { h with breaks := h.breaks + 1, blanks := [] })
  else if c ≠ '\n' ∧ isBlank c then ([], { h with blanks := h.blanks ++ [c] })
  else (h.gap ++ [c], clear)

/-- What is written for a text that starts at an offset, and what is held back after it. -/
def run (isProtected : List Span) (h : Held) (offset : Nat) : List Char → List Char × Held
  | [] => ([], h)
  | c :: cs =>
    let (out, h') := h.step isProtected offset c
    let (more, h'') := h'.run isProtected (offset + c.utf8Size) cs
    (out ++ more, h'')

/-- What stands before a character that follows a text. -/
def reach (isProtected : List Span) (h : Held) (offset : Nat) (cs : List Char) : List Char :=
  (h.run isProtected offset cs).1 ++ (h.run isProtected offset cs).2.gap

/-- The layout of a text. -/
def lay (isProtected : List Span) (h : Held) (offset : Nat) (cs : List Char) : List Char :=
  (h.run isProtected offset cs).1 ++ (h.run isProtected offset cs).2.close

variable {isProtected : List Span}

@[simp] theorem gap_clear : clear.gap = [] := rfl

theorem run_nil (h : Held) (offset : Nat) : h.run isProtected offset [] = ([], h) := rfl

theorem run_cons (h : Held) (offset : Nat) (c : Char) (cs : List Char) :
    h.run isProtected offset (c :: cs) =
      ((h.step isProtected offset c).1 ++
          ((h.step isProtected offset c).2.run isProtected (offset + c.utf8Size) cs).1,
        ((h.step isProtected offset c).2.run isProtected (offset + c.utf8Size) cs).2) := rfl

/-- A text is written part by part. -/
theorem run_append (h : Held) (offset : Nat) (cs ds : List Char) :
    h.run isProtected offset (cs ++ ds) =
      ((h.run isProtected offset cs).1 ++
          ((h.run isProtected offset cs).2.run isProtected (offset + Utf8.size cs) ds).1,
        ((h.run isProtected offset cs).2.run isProtected (offset + Utf8.size cs) ds).2) := by
  induction cs generalizing h offset with
  | nil => simp [run_nil]
  | cons c cs ih =>
    rw [List.cons_append, run_cons, ih, run_cons]
    simp [Nat.add_assoc]

theorem run_concat (h : Held) (offset : Nat) (cs : List Char) (c : Char) :
    h.run isProtected offset (cs ++ [c]) =
      ((h.run isProtected offset cs).1 ++
          ((h.run isProtected offset cs).2.step isProtected (offset + Utf8.size cs) c).1,
        ((h.run isProtected offset cs).2.step isProtected (offset + Utf8.size cs) c).2) := by
  rw [run_append, run_cons, run_nil]
  simp

theorem reach_append (h : Held) (offset : Nat) (cs ds : List Char) :
    h.reach isProtected offset (cs ++ ds) =
      (h.run isProtected offset cs).1 ++
        (h.run isProtected offset cs).2.reach isProtected (offset + Utf8.size cs) ds := by
  simp [reach, run_append]

theorem lay_append (h : Held) (offset : Nat) (cs ds : List Char) :
    h.lay isProtected offset (cs ++ ds) =
      (h.run isProtected offset cs).1 ++
        (h.run isProtected offset cs).2.lay isProtected (offset + Utf8.size cs) ds := by
  simp [lay, run_append]

/-! ### One character -/

theorem step_newline {offset : Nat} (outside : inside isProtected offset = false) (h : Held) :
    h.step isProtected offset '\n' = ([], { h with breaks := h.breaks + 1, blanks := [] }) := by
  rw [step, if_pos ⟨rfl, outside⟩]

theorem step_blank {c : Char} (blank : isBlank c) (other : c ≠ '\n') (h : Held) (offset : Nat) :
    h.step isProtected offset c = ([], { h with blanks := h.blanks ++ [c] }) := by
  rw [step, if_neg fun newline => other newline.1, if_pos ⟨other, blank⟩]

/-- A character that is written at once: no blank, or a protected newline. -/
def Prints (isProtected : List Span) (offset : Nat) (c : Char) : Prop :=
  isBlank c = false ∨ c = '\n' ∧ inside isProtected offset

theorem step_prints {offset : Nat} {c : Char} (prints : Prints isProtected offset c) (h : Held) :
    h.step isProtected offset c = (h.gap ++ [c], clear) := by
  have newline : isBlank '\n' := by decide
  rcases prints with solid | ⟨rfl, within⟩
  · rw [step, if_neg, if_neg]
    · simp [solid]
    · rintro ⟨rfl, -⟩
      rw [newline] at solid
      cases solid
  · rw [step, if_neg, if_neg]
    · simp
    · simp [within]

/-- A character is a line break, another blank, or one that is written. -/
theorem char_cases (isProtected : List Span) (offset : Nat) (c : Char) :
    (c = '\n' ∧ inside isProtected offset = false) ∨ (isBlank c ∧ c ≠ '\n') ∨
      Prints isProtected offset c := by
  by_cases newline : c = '\n'
  · cases within : inside isProtected offset with
    | false => exact .inl ⟨newline, rfl⟩
    | true => exact .inr (.inr (.inr ⟨newline, within⟩))
  · cases blank : isBlank c with
    | true => exact .inr (.inl ⟨rfl, newline⟩)
    | false => exact .inr (.inr (.inl blank))

/-! ### Texts -/

theorem run_blanks {tail : List Char} (blank : ∀ c ∈ tail, isBlank c) (clear : '\n' ∉ tail)
    (h : Held) (offset : Nat) :
    h.run isProtected offset tail = ([], { h with blanks := h.blanks ++ tail }) := by
  induction tail generalizing h offset with
  | nil => simp [run_nil]
  | cons c tail ih =>
    rw [List.mem_cons, not_or] at clear
    obtain ⟨first, others⟩ := List.forall_mem_cons.1 blank
    rw [run_cons, step_blank first (Ne.symm clear.1), ih others clear.2]
    simp

/-- All newlines of a text that starts at an offset are protected. -/
def Protected (isProtected : List Span) (offset : Nat) (cs : List Char) : Prop :=
  ∀ before after, cs = before ++ '\n' :: after → inside isProtected (offset + Utf8.size before)

theorem protected_of_not_mem {cs : List Char} (clear : '\n' ∉ cs) (offset : Nat) :
    Protected isProtected offset cs := by
  intro before after same
  rw [same] at clear
  simp at clear

theorem Protected.tail {offset : Nat} {c : Char} {cs : List Char}
    (within : Protected isProtected offset (c :: cs)) :
    Protected isProtected (offset + c.utf8Size) cs := by
  intro before after same
  have inner := within (c :: before) after (by rw [same, List.cons_append])
  simpa [Nat.add_assoc] using inner

theorem Protected.of_append {offset : Nat} {cs ds : List Char}
    (within : Protected isProtected offset (cs ++ ds)) : Protected isProtected offset cs := by
  intro before after same
  exact within before (after ++ ds) (by rw [same]; simp)

/-- Nothing is lost of a text without line breaks: each character is written or held back. -/
theorem reach_of_protected {offset : Nat} {cs : List Char}
    (within : Protected isProtected offset cs) (h : Held) :
    h.reach isProtected offset cs = h.gap ++ cs := by
  induction cs generalizing h offset with
  | nil => simp [reach, run_nil]
  | cons c cs ih =>
    have next := ih within.tail
    have here : (h.step isProtected offset c).1 ++ (h.step isProtected offset c).2.gap =
        h.gap ++ [c] := by
      rcases char_cases isProtected offset c with ⟨rfl, outside⟩ | ⟨blank, other⟩ | prints
      · have newline := within [] cs rfl
        rw [Utf8.size_nil, Nat.add_zero, outside] at newline
        cases newline
      · simp [step_blank blank other, gap]
      · simp [step_prints prints]
    rw [reach, run_cons, List.append_assoc]
    change _ ++ reach isProtected _ _ cs = _
    rw [next, ← List.append_assoc, here]
    simp

theorem run_concat_prints {offset : Nat} {cs : List Char} {c : Char}
    (prints : Prints isProtected (offset + Utf8.size cs) c) (h : Held) :
    h.run isProtected offset (cs ++ [c]) = (h.reach isProtected offset cs ++ [c], clear) := by
  rw [run_concat, step_prints prints, reach, List.append_assoc]

/-- A text without line breaks whose last character is written is written whole. -/
theorem run_core {offset : Nat} {front : List Char} {c : Char}
    (within : Protected isProtected offset front)
    (prints : Prints isProtected (offset + Utf8.size front) c) (h : Held) :
    h.run isProtected offset (front ++ [c]) = (h.gap ++ (front ++ [c]), clear) := by
  rw [run_concat_prints prints, reach_of_protected within, List.append_assoc]

end Held

/-! ### Lines -/

/-- The lines of a text, without their newlines. -/
def lineBodies (source : List Char) : List (List Char) :=
  let pieces := splitOn '\n' source
  if pieces.getLast? = some [] then pieces.dropLast else pieces

theorem lines_eq (source : List Char) : lines source = placeLines 0 (lineBodies source) := rfl

theorem lineBodies_append {body : List Char} (clear : '\n' ∉ body) (rest : List Char) :
    lineBodies (body ++ '\n' :: rest) = body :: lineBodies rest := by
  obtain ⟨piece, pieces, same⟩ := List.exists_cons_of_ne_nil (Text.splitOn_ne_nil '\n' rest)
  rw [lineBodies, lineBodies, Text.splitOn_append clear, same, List.getLast?_cons_cons]
  split
  · rfl
  · rfl

theorem lineBodies_of_not_mem {body : List Char} (clear : '\n' ∉ body) (nonempty : body ≠ []) :
    lineBodies body = [body] := by
  rw [lineBodies, Text.splitOn_of_not_mem clear]
  simp [nonempty]

theorem takeBytes_append (cs ds : List Char) : takeBytes (Utf8.size cs) (cs ++ ds) = cs := by
  induction cs with
  | nil =>
    cases ds with
    | nil => rfl
    | cons d ds =>
      have wide := d.utf8Size_pos
      rw [List.nil_append, takeBytes, if_neg]
      rw [Utf8.size_nil]
      omega
  | cons c cs ih =>
    rw [List.cons_append, takeBytes, Utf8.size_cons, if_pos (Nat.le_add_right _ _),
      Nat.add_sub_cancel_left, ih]

theorem takeBytes_size (body : List Char) : takeBytes (Utf8.size body) body = body := by
  simpa using takeBytes_append body []

theorem takeBytes_trimEnd (body : List Char) :
    takeBytes (Utf8.size (trimEnd body)) body = trimEnd body := by
  obtain ⟨tail, trimmed, -, -⟩ := Text.trimEnd_eq_append body
  nth_rewrite 2 [trimmed]
  exact takeBytes_append _ _

/-! ### What is kept of a line -/

variable {isProtected : List Span} {source : List Char}
  (solid : ∀ s ∈ isProtected, isSolid source s)

theorem keptFrom_eq {l : Line} {keep : Nat} {spans : List Span}
    (short : ∀ s ∈ spans, l.start < s.stop → s.stop ≤ l.stop → s.stop - l.start ≤ keep) :
    keptFrom l keep spans =
      if inside spans l.stop then (Utf8.size l.body, true) else (keep, false) := by
  induction spans with
  | nil => rfl
  | cons s spans ih =>
    obtain ⟨first, others⟩ := List.forall_mem_cons.1 short
    have within : l.start ≤ l.stop := Nat.le_add_right _ _
    have both : inside (s :: spans) l.stop =
        (decide (s.start < l.stop ∧ l.stop < s.stop) || inside spans l.stop) := by
      simp [inside]
    rw [keptFrom, both]
    split
    · rename_i away
      rw [decide_eq_false (by omega), Bool.false_or]
      exact ih others
    · rename_i near
      split
      · rename_i beyond
        rw [decide_eq_true ⟨by omega, beyond⟩, Bool.true_or, if_pos rfl]
      · rename_i before
        rw [decide_eq_false (by omega), Bool.false_or,
          Nat.max_eq_left (first (by omega) (by omega))]
        exact ih others

include solid

/-- Where a span ends within a text after an offset, the text has a character that is no blank right
before the end. -/
theorem exists_last {pre text rest : List Char} (whole : source = pre ++ (text ++ rest)) {s : Span}
    (member : s ∈ isProtected) (later : Utf8.size pre < s.stop)
    (within : s.stop ≤ Utf8.size pre + Utf8.size text) :
    ∃ front c back, text = front ++ c :: back ∧ isBlank c = false ∧
      s.stop = Utf8.size pre + Utf8.size front + c.utf8Size := by
  obtain ⟨before, inner, after, stands⟩ := exists_stands (solid s member)
  obtain ⟨init, c, rfl, plain⟩ := stands.last
  have stop : s.stop = Utf8.size (before ++ init) + c.utf8Size := by
    rw [stands.stop, Utf8.size_append, Utf8.size_append, Utf8.size_cons, Utf8.size_nil]
    omega
  have apart : pre ++ (text ++ rest) = (before ++ init ++ [c]) ++ after := by
    rw [← whole, stands.whole]
    simp
  -- the text before the last character of the span goes on after `pre`
  obtain ⟨middle, joined, -⟩ := Go.exists_middle_of_size_le apart (by
    rw [Utf8.size_append, Utf8.size_cons, Utf8.size_nil]
    omega)
  have first : Utf8.size pre ≤ Utf8.size (before ++ init) := by
    rcases List.eq_nil_or_concat' middle with rfl | ⟨front, d, rfl⟩
    · rw [List.append_nil] at joined
      rw [← joined, Utf8.size_append, Utf8.size_cons, Utf8.size_nil] at later
      omega
    · rw [← List.append_assoc] at joined
      rw [(List.append_inj' joined rfl).1, Utf8.size_append]
      exact Nat.le_add_right _ _
  have wide := c.utf8Size_pos
  have apart' : pre ++ (text ++ rest) = (before ++ init) ++ c :: after := by
    rw [apart]
    simp
  obtain ⟨front, back, same, text_eq, -⟩ := Go.exists_split_of_within apart' first (by omega)
  refine ⟨front, c, back, text_eq, plain, ?_⟩
  rw [stop, same, Utf8.size_append]

/-- Of a line that does not end in a protected span, all but the blanks at its end is kept. -/
theorem kept_eq {pre body rest : List Char} (whole : source = pre ++ (body ++ rest)) :
    kept isProtected ⟨Utf8.size pre, body⟩ =
      if inside isProtected (Utf8.size pre + Utf8.size body) then (Utf8.size body, true)
      else (Utf8.size (trimEnd body), false) := by
  apply keptFrom_eq
  intro s member later within
  obtain ⟨front, c, back, same, plain, stop⟩ := exists_last solid whole member later within
  obtain ⟨tail, trimmed, blank, -⟩ := Text.trimEnd_eq_append body
  have apart : trimEnd body ++ tail = front ++ c :: back := by rw [← trimmed, same]
  have before : Utf8.size front < Utf8.size (trimEnd body) := by
    by_contra late
    -- the last character of the span would be one of the blanks
    obtain ⟨middle, -, rfl⟩ := Go.exists_middle_of_size_le apart (by omega)
    rw [blank c (by simp)] at plain
    cases plain
  obtain ⟨more, more', joined, split, -⟩ := Go.exists_split_of_within
    (show [] ++ (trimEnd body ++ tail) = front ++ c :: back from apart) (Nat.zero_le _)
    (by simpa using before)
  have long := congrArg Utf8.size split
  rw [List.nil_append] at joined
  rw [Utf8.size_append, Utf8.size_cons, ← joined] at long
  simp only
  omega

/-- A line after a protected newline has a character that is no blank, or ends in the same span. -/
theorem not_blank_line {pre body rest : List Char} (whole : source = pre ++ '\n' :: (body ++ rest))
    (within : inside isProtected (Utf8.size pre)) (blank : ∀ c ∈ body, isBlank c)
    (stops : rest = [] ∨ inside isProtected (Utf8.size pre + 1 + Utf8.size body) = false) :
    False := by
  obtain ⟨s, member, start, stop⟩ := inside_iff.1 within
  have sized : Utf8.size ('\n' :: body) = 1 + Utf8.size body := rfl
  have near : s.stop ≤ Utf8.size pre + Utf8.size ('\n' :: body) := by
    rw [sized]
    rcases stops with rfl | outside
    · obtain ⟨before, inner, after, stands⟩ := exists_stands (solid s member)
      have last := stands.stop_le
      rwa [whole, List.append_nil, Utf8.size_append, sized] at last
    · have := inside_eq_false_iff.1 outside s member (by omega)
      omega
  obtain ⟨front, c, back, same, plain, -⟩ := exists_last solid
    (show source = pre ++ (('\n' :: body) ++ rest) from whole) member stop near
  have all : ∀ d ∈ '\n' :: body, isBlank d := List.forall_mem_cons.2 ⟨by decide, blank⟩
  rw [all c (by rw [same]; simp)] at plain
  cases plain

theorem outside_size : inside isProtected (Utf8.size source) = false := by
  rw [inside_eq_false_iff]
  intro s member _
  obtain ⟨before, inner, after, stands⟩ := exists_stands (solid s member)
  exact stands.stop_le

omit solid

/-! ### Lines and characters -/

theorem write_cons_blank {l : Line} (blank : kept isProtected l = (0, false))
    (written pending : Bool) (rest : List Line) :
    write isProtected written pending (l :: rest) = write isProtected written written rest := by
  rw [write, blank]
  rfl

theorem write_cons {l : Line} {keep : Nat} {within : Bool}
    (part : kept isProtected l = (keep, within)) (solid : keep ≠ 0 ∨ within)
    (written pending : Bool) (rest : List Line) :
    write isProtected written pending (l :: rest) =
      (if pending then ['\n'] else []) ++ takeBytes keep l.body ++
        '\n' :: write isProtected true false rest := by
  have skip : ¬ (keep = 0 ∧ (!within) = true) := by
    rintro ⟨zero, outside⟩
    rcases solid with nonzero | inner
    · exact nonzero zero
    · rw [inner] at outside
      cases outside
  rw [write, part]
  simp only [if_neg skip]

namespace Held

/-- The first line break before a line ends the line before it; the others are one empty line. -/
theorem gap_eq (h : Held) :
    h.gap = (if h.written && decide (0 < h.breaks) then ['\n'] else []) ++
      ((if h.written && decide (2 ≤ h.breaks) then ['\n'] else []) ++ h.blanks) := by
  obtain ⟨written, breaks, blanks⟩ := h
  cases written with
  | false => rfl
  | true =>
    rcases breaks with _ | _ | breaks
    · rfl
    · rfl
    · simp [gap]

/-! ### One line, character by character -/

/-- A line without its newline is held back when it is blank, and else written up to the blanks at
its end. -/
theorem run_line (isProtected : List Span) {body : List Char} (clear : '\n' ∉ body) (h : Held)
    (offset : Nat) :
    ∃ blanks, h.run isProtected offset body =
      if trimEnd body = [] then ([], { h with blanks })
      else (h.gap ++ trimEnd body, ⟨true, 0, blanks⟩) := by
  obtain ⟨tail, trimmed, blank, plain⟩ := Text.trimEnd_eq_append body
  have clear' : '\n' ∉ trimEnd body ∧ '\n' ∉ tail := by
    rw [trimmed, List.mem_append, not_or] at clear
    exact clear
  rcases List.eq_nil_or_concat' (trimEnd body) with empty | ⟨front, c, split⟩
  · refine ⟨h.blanks ++ tail, ?_⟩
    rw [empty, List.nil_append] at trimmed
    rw [if_pos empty, trimmed, run_blanks blank clear'.2]
  · refine ⟨tail, ?_⟩
    have within : Protected isProtected offset front := by
      apply protected_of_not_mem
      rw [split, List.mem_append, not_or] at clear'
      exact clear'.1.1
    have prints : Prints isProtected (offset + Utf8.size front) c :=
      .inl (plain c (by simp [split]))
    rw [if_neg (by simp [split])]
    nth_rewrite 1 [trimmed]
    rw [run_append, split, run_core within prints, run_blanks blank clear'.2]
    simp [Held.clear]

/-- A line that ends in a protected newline is written whole. -/
theorem lay_protected_line {body : List Char} (clear : '\n' ∉ body) {offset : Nat}
    (within : inside isProtected (offset + Utf8.size body)) (h : Held) (rest : List Char) :
    h.lay isProtected offset (body ++ '\n' :: rest) =
      h.gap ++ body ++
        '\n' :: Held.clear.lay isProtected (offset + Utf8.size (body ++ ['\n'])) rest := by
  rw [List.append_cons, lay_append, run_core (protected_of_not_mem clear _) (.inr ⟨rfl, within⟩)]
  simp

/-- A line that ends in a line break adds it to what is held back when it is blank, and is else
written up to the blanks at its end. -/
theorem lay_line {body : List Char} (clear : '\n' ∉ body) {offset : Nat}
    (outside : inside isProtected (offset + Utf8.size body) = false) (h : Held)
    (rest : List Char) :
    h.lay isProtected offset (body ++ '\n' :: rest) =
      if trimEnd body = [] then
        lay isProtected ⟨h.written, h.breaks + 1, []⟩ (offset + Utf8.size (body ++ ['\n'])) rest
      else
        h.gap ++ trimEnd body ++
          lay isProtected ⟨true, 1, []⟩ (offset + Utf8.size (body ++ ['\n'])) rest := by
  obtain ⟨blanks, line⟩ := run_line isProtected clear h offset
  rw [List.append_cons, lay_append, run_concat, step_newline outside, line]
  split
  · simp
  · simp

/-- The last line is written up to the blanks at its end, and ends what was written before it. -/
theorem lay_last_line {body : List Char} (clear : '\n' ∉ body) (h : Held) (offset : Nat) :
    h.lay isProtected offset body =
      if trimEnd body = [] then h.close else h.gap ++ trimEnd body ++ ['\n'] := by
  obtain ⟨blanks, line⟩ := run_line isProtected clear h offset
  rw [lay, line]
  split
  · rfl
  · rfl

/-! ### One line, among lines -/

/-- What is written for lines when line breaks are held back before them. -/
def writeLines (isProtected : List Span) (h : Held) (ls : List Line) : List Char :=
  (if h.written && decide (0 < h.breaks) then ['\n'] else []) ++
    write isProtected h.written (h.written && decide (2 ≤ h.breaks)) ls

/-- A line of which something is kept ends the line before it. -/
theorem writeLines_cons {l : Line} {keep : Nat} {within : Bool}
    (part : kept isProtected l = (keep, within)) (solid : keep ≠ 0 ∨ within) (written : Bool)
    (breaks : Nat) (ls : List Line) :
    writeLines isProtected ⟨written, breaks, []⟩ (l :: ls) =
      gap ⟨written, breaks, []⟩ ++ takeBytes keep l.body ++
        '\n' :: write isProtected true false ls := by
  rw [writeLines, write_cons part solid, gap_eq]
  simp

/-- A line of which nothing is kept is one more line break, if one is held back already. -/
theorem writeLines_cons_blank {l : Line} (blank : kept isProtected l = (0, false))
    {written : Bool} {breaks : Nat} (broke : written → 0 < breaks) (ls : List Line) :
    writeLines isProtected ⟨written, breaks, []⟩ (l :: ls) =
      writeLines isProtected ⟨written, breaks + 1, []⟩ ls := by
  rw [writeLines, writeLines, write_cons_blank blank]
  cases written with
  | false => rfl
  | true =>
    have before : 0 < breaks := broke rfl
    have two : 2 ≤ breaks + 1 := by omega
    simp [before, two]

theorem writeLines_nil {written : Bool} {breaks : Nat} (broke : written → 0 < breaks) :
    writeLines isProtected ⟨written, breaks, []⟩ [] = close ⟨written, breaks, []⟩ := by
  cases written with
  | false => rfl
  | true => simp [writeLines, write, close, broke rfl]

/-! ### Line by line -/

/-- The text after `pre` starts a line. The line break before it is held back, unless nothing was
written yet or it was a protected newline. -/
def StartsLine (isProtected : List Span) (pre : List Char) (written : Bool) (breaks : Nat) : Prop :=
  written → breaks = 0 →
    ∃ before, pre = before ++ ['\n'] ∧ inside isProtected (Utf8.size before)

/-- A blank line cannot follow a protected newline. -/
theorem StartsLine.breaks_pos (solid : ∀ s ∈ isProtected, isSolid source s)
    {pre body rest : List Char} {written : Bool} {breaks : Nat}
    (starts : StartsLine isProtected pre written breaks) (whole : source = pre ++ (body ++ rest))
    (blank : trimEnd body = [])
    (stops : rest = [] ∨ inside isProtected (Utf8.size pre + Utf8.size body) = false) :
    written → 0 < breaks := by
  intro inked
  by_contra zero
  obtain ⟨before, rfl, within⟩ := starts inked (by omega)
  obtain ⟨tail, trimmed, all, -⟩ := Text.trimEnd_eq_append body
  rw [blank, List.nil_append] at trimmed
  subst trimmed
  rw [Utf8.size_append] at stops
  exact not_blank_line solid (by rw [whole]; simp) within all stops

theorem lay_last_line_eq (solid : ∀ s ∈ isProtected, isSolid source s) {pre body : List Char}
    (whole : source = pre ++ body) {written : Bool} {breaks : Nat}
    (starts : StartsLine isProtected pre written breaks) (clear : '\n' ∉ body) :
    lay isProtected ⟨written, breaks, []⟩ (Utf8.size pre) body =
      writeLines isProtected ⟨written, breaks, []⟩
        (placeLines (Utf8.size pre) (lineBodies body)) := by
  rw [← List.append_nil body] at whole
  have broke := fun blank => starts.breaks_pos solid whole blank (.inl rfl)
  rw [lay_last_line clear]
  by_cases empty : body = []
  · subst empty
    exact (writeLines_nil (broke rfl)).symm
  · have outside : inside isProtected (Utf8.size pre + Utf8.size body) = false := by
      have last := outside_size solid
      rwa [whole, List.append_nil, Utf8.size_append] at last
    have part := kept_eq solid whole
    rw [outside, if_neg (by simp)] at part
    rw [lineBodies_of_not_mem clear empty, placeLines, placeLines]
    by_cases blank : trimEnd body = []
    · rw [blank] at part
      rw [if_pos blank, writeLines_cons_blank part (broke blank), writeLines_nil (by simp)]
      rfl
    · rw [if_neg blank, writeLines_cons part (.inl (Utf8.size_pos blank).ne'), takeBytes_trimEnd]
      simp [write]

/-- At the start of a line, writing lines is writing characters. -/
theorem lay_eq_writeLines (solid : ∀ s ∈ isProtected, isSolid source s) {pre text : List Char}
    (whole : source = pre ++ text) {written : Bool} {breaks : Nat}
    (starts : StartsLine isProtected pre written breaks) :
    lay isProtected ⟨written, breaks, []⟩ (Utf8.size pre) text =
      writeLines isProtected ⟨written, breaks, []⟩
        (placeLines (Utf8.size pre) (lineBodies text)) := by
  induction len : text.length using Nat.strong_induction_on
    generalizing pre text written breaks with
  | _ n ih =>
    subst len
    by_cases member : '\n' ∈ text
    · obtain ⟨body, rest, rfl, clear⟩ := List.eq_append_cons_of_mem member
      -- the lines behind the first one
      have next {written : Bool} {breaks : Nat}
          (starts : StartsLine isProtected (pre ++ (body ++ ['\n'])) written breaks) :=
        ih rest.length (by simp; omega) (by rw [whole]; simp) starts rfl
      have sized : Utf8.size (body ++ ['\n']) = Utf8.size body + 1 := Utf8.size_append _ _
      rw [Utf8.size_append, sized, ← Nat.add_assoc] at next
      have part := kept_eq solid whole
      rw [lineBodies_append clear, placeLines]
      cases within : inside isProtected (Utf8.size pre + Utf8.size body) with
      | true =>
        have inner : StartsLine isProtected (pre ++ (body ++ ['\n'])) true 0 := fun _ _ =>
          ⟨pre ++ body, by simp, by rw [Utf8.size_append, within]⟩
        rw [within, if_pos rfl] at part
        rw [lay_protected_line clear within, writeLines_cons part (.inr rfl), takeBytes_size,
          sized, ← Nat.add_assoc, Held.clear, next inner]
        simp [writeLines]
      | false =>
        rw [within, if_neg (by simp)] at part
        rw [lay_line clear within, sized, ← Nat.add_assoc]
        by_cases blank : trimEnd body = []
        · have broke := starts.breaks_pos solid whole blank (.inr within)
          rw [blank] at part
          rw [if_pos blank, next (by simp [StartsLine]), writeLines_cons_blank part broke]
        · rw [if_neg blank, next (by simp [StartsLine]),
            writeLines_cons part (.inl (Utf8.size_pos blank).ne'), takeBytes_trimEnd]
          simp [writeLines]
    · exact lay_last_line_eq solid whole starts member

end Held

/-- The canonical layout is written character by character. -/
theorem canonicalize_eq_lay (solid : ∀ s ∈ isProtected, isSolid source s) :
    canonicalize isProtected source = Held.start.lay isProtected 0 source := by
  have starts : Held.StartsLine isProtected [] false 0 := nofun
  have laid := Held.lay_eq_writeLines solid (List.nil_append source).symm starts
  rw [canonicalize, lines_eq]
  simpa [Held.start, Held.writeLines] using laid.symm

end Marginalia.Layout
