/-
Module: Marginalia.Proofs.Layout.Stable
Purpose: The canonical layout of a text is its own canonical layout.
Main exports:
  place, moved, exists_stands_moved, run_settled, canonicalize_moved
-/
import Marginalia.Proofs.Layout.Characters

namespace Marginalia.Layout

open Go (Span)
open Text (isBlank)

/-!
A character that is written stands in the layout behind all that was written before it. Protected
spans move with their first characters. What was written of a text is then written again as it is:
the line breaks between two characters are outside the moved spans, the newlines that were
protected are inside them.
-/

/-! ### What is held back -/

namespace Held

variable {isProtected : List Span}

/-- Only blanks within a line are held back behind the line breaks. -/
def Neat (h : Held) : Prop :=
  ∀ c ∈ h.blanks, isBlank c ∧ c ≠ '\n'

theorem Neat.step {h : Held} (neat : h.Neat) (offset : Nat) (c : Char) :
    (h.step isProtected offset c).2.Neat := by
  rcases char_cases isProtected offset c with ⟨rfl, outside⟩ | ⟨blank, other⟩ | prints
  · simp [step_newline outside, Neat]
  · intro d member
    rw [step_blank blank other] at member
    rcases List.mem_append.1 member with old | new
    · exact neat d old
    · rw [List.mem_singleton.1 new]
      exact ⟨blank, other⟩
  · simp [step_prints prints, Neat, clear]

theorem Neat.run {h : Held} (neat : h.Neat) (offset : Nat) (cs : List Char) :
    (h.run isProtected offset cs).2.Neat := by
  induction cs generalizing h offset with
  | nil => exact neat
  | cons c cs ih => exact ih (neat.step offset c) _

/-- Protected newlines are no line breaks. -/
theorem breaks_run {offset : Nat} {cs : List Char} (within : Protected isProtected offset cs)
    {h : Held} (breakless : h.breaks = 0) : (h.run isProtected offset cs).2.breaks = 0 := by
  induction cs generalizing h offset with
  | nil => exact breakless
  | cons c cs ih =>
    rw [run_cons]
    apply ih within.tail
    rcases char_cases isProtected offset c with ⟨rfl, outside⟩ | ⟨blank, other⟩ | prints
    · have newline := within [] cs rfl
      rw [Utf8.size_nil, Nat.add_zero, outside] at newline
      cases newline
    · rw [step_blank blank other]
      exact breakless
    · rw [step_prints prints]
      rfl

theorem reach_append_of_protected {offset : Nat} {cs ds : List Char}
    (within : Protected isProtected (offset + Utf8.size cs) ds) (h : Held) :
    h.reach isProtected offset (cs ++ ds) = h.reach isProtected offset cs ++ ds := by
  rw [reach_append, reach_of_protected within, reach, List.append_assoc]

theorem run_newlines {offset n : Nat} (outside : ∀ i < n, inside isProtected (offset + i) = false)
    (written : Bool) (breaks : Nat) :
    Held.run isProtected ⟨written, breaks, []⟩ offset (List.replicate n '\n') =
      ([], ⟨written, breaks + n, []⟩) := by
  induction n generalizing offset breaks with
  | zero => rfl
  | succ n ih =>
    have here : inside isProtected offset = false := outside 0 (Nat.succ_pos n)
    have later : ∀ i < n, inside isProtected (offset + Char.utf8Size '\n' + i) = false := by
      intro i small
      have next := outside (i + 1) (Nat.succ_lt_succ small)
      rwa [Nat.add_comm i 1, ← Nat.add_assoc] at next
    rw [List.replicate_succ, run_cons, step_newline here, ih later]
    simp [Nat.add_assoc, Nat.add_comm 1 n]

/-- What was written for blanks before a character is written for them again. -/
theorem run_gap {h : Held} (neat : h.Neat) {offset : Nat} {c : Char}
    (outside : 0 < h.breaks → ∀ o, offset ≤ o → o < offset + Utf8.size h.gap →
      inside isProtected o = false)
    (prints : Prints isProtected (offset + Utf8.size h.gap) c) :
    Held.run isProtected ⟨h.written, 0, []⟩ offset (h.gap ++ [c]) = (h.gap ++ [c], clear) := by
  obtain ⟨written, breaks, blanks⟩ := h
  have blank : ∀ d ∈ blanks, isBlank d := fun d member => (neat d member).1
  have within : '\n' ∉ blanks := fun member => (neat '\n' member).2 rfl
  rw [run_concat, step_prints prints]
  cases written with
  | false =>
    simp only [gap, Bool.false_eq_true, if_false, List.nil_append]
    rw [run_blanks blank within]
    simp
  | true =>
    have sized : Utf8.size (List.replicate (min breaks 2) '\n') = min breaks 2 := by
      rcases breaks with _ | _ | breaks
      · rfl
      · rfl
      · simp [List.replicate]
        rfl
    have free : ∀ i < min breaks 2, inside isProtected (offset + i) = false := by
      intro i small
      have broke : 0 < breaks := by omega
      apply outside broke (offset + i) (Nat.le_add_right _ _)
      simp only [gap, if_true, Utf8.size_append, sized]
      omega
    simp only [gap, if_true]
    rw [run_append, run_newlines free, run_blanks blank within]
    simp

end Held

/-! ### Moved spans -/

/-- The offset in the layout of a character that is written after a text. -/
def place (isProtected : List Span) (pre : List Char) : Nat :=
  Utf8.size (Held.start.reach isProtected 0 pre)

/-- Where a span of a text stands in its layout. -/
def moved (isProtected : List Span) (source : List Char) (s : Span) : Span :=
  ⟨place isProtected (takeBytes s.start source),
    place isProtected (takeBytes s.start source) + (s.stop - s.start)⟩

/-- What is written of a text before what is held back. -/
def settled (isProtected : List Span) (pre : List Char) : List Char :=
  (Held.start.run isProtected 0 pre).1

/-- What is held back after a text. -/
def pending (isProtected : List Span) (pre : List Char) : Held :=
  (Held.start.run isProtected 0 pre).2

variable {isProtected : List Span} {source : List Char}

theorem place_eq (isProtected : List Span) (pre : List Char) :
    place isProtected pre =
      Utf8.size (settled isProtected pre) + Utf8.size (pending isProtected pre).gap := by
  rw [place, Held.reach, Utf8.size_append]
  rfl

theorem neat_pending (pre : List Char) : (pending isProtected pre).Neat :=
  Held.Neat.run (by simp [Held.Neat, Held.start]) 0 pre

theorem prefix_settled (isProtected : List Span) (cs ds : List Char) :
    settled isProtected cs <+: settled isProtected (cs ++ ds) := by
  rw [settled, settled, Held.run_append]
  exact List.prefix_append _ _

theorem size_le_size {cs ds : List Char} (front : cs <+: ds) : Utf8.size cs ≤ Utf8.size ds := by
  obtain ⟨rest, rfl⟩ := front
  rw [Utf8.size_append]
  exact Nat.le_add_right _ _

section Standing

variable {s : Span} {before inner after : List Char}

theorem moved_eq (stands : Stands source s before inner after) :
    moved isProtected source s =
      ⟨place isProtected before, place isProtected before + Utf8.size inner⟩ := by
  have front : takeBytes s.start source = before := by
    rw [stands.start, stands.whole, takeBytes_append]
  rw [moved, front, stands.start, stands.stop, Nat.add_sub_cancel_left]

variable (member : s ∈ isProtected) (stands : Stands source s before inner after)

include member stands

/-- The newlines of a protected span are protected by it. -/
theorem protected_inner : Held.Protected isProtected (Utf8.size before) inner := by
  intro front back same
  obtain ⟨preceded, -⟩ := stands.ne_nil_of_blank same (by decide)
  have more := Utf8.size_pos preceded
  have long := congrArg Utf8.size same
  rw [Utf8.size_append, Utf8.size_cons] at long
  have wide := Char.utf8Size_pos '\n'
  rw [inside_iff]
  refine ⟨s, member, ?_, ?_⟩
  · rw [stands.start]
    omega
  · rw [stands.stop]
    omega

/-- A protected span is written whole. -/
theorem run_inner : Held.start.run isProtected 0 (before ++ inner) =
    (Held.start.reach isProtected 0 before ++ inner, .clear) := by
  obtain ⟨front, c, rfl, plain⟩ := stands.last
  have within : Held.Protected isProtected (0 + Utf8.size before) front := by
    rw [Nat.zero_add]
    exact (protected_inner member stands).of_append
  rw [← List.append_assoc, Held.run_concat_prints (.inl plain),
    Held.reach_append_of_protected within, List.append_assoc]

/-- A protected span stands in the layout where it moved to, with the same text. -/
theorem exists_stands_moved (solid : ∀ s ∈ isProtected, isSolid source s) :
    ∃ rest, Stands (canonicalize isProtected source) (moved isProtected source s)
      (Held.start.reach isProtected 0 before) inner rest := by
  have layout : ∃ rest, canonicalize isProtected source =
      Held.start.reach isProtected 0 before ++ (inner ++ rest) := by
    rw [canonicalize_eq_lay solid, stands.whole, ← List.append_assoc, Held.lay_append,
      run_inner member stands, List.append_assoc]
    exact ⟨_, rfl⟩
  obtain ⟨rest, same⟩ := layout
  rw [moved_eq stands]
  exact ⟨rest, same, rfl, rfl, stands.first, stands.last⟩

/-- A span that ends before a character is written before it. -/
theorem stop_le_settled {pre post : List Char} (whole : source = pre ++ post)
    (ends : s.stop ≤ Utf8.size pre) :
    (moved isProtected source s).stop ≤ Utf8.size (settled isProtected pre) := by
  have apart : (before ++ inner) ++ after = pre ++ post := by
    rw [← whole, stands.whole, List.append_assoc]
  obtain ⟨middle, rfl, -⟩ := Go.exists_middle_of_size_le apart (by
    rw [Utf8.size_append, ← stands.stop]
    exact ends)
  have first := size_le_size (prefix_settled isProtected (before ++ inner) middle)
  rw [settled, run_inner member stands, Utf8.size_append] at first
  rw [moved_eq stands]
  exact first

/-- No moved span covers the line breaks before a character. -/
theorem stop_le_of_gap {pre post : List Char} {c : Char} (whole : source = pre ++ c :: post)
    (prints : Held.Prints isProtected (Utf8.size pre) c)
    (broken : 0 < (pending isProtected pre).breaks) {o : Nat}
    (first : Utf8.size (settled isProtected pre) ≤ o) (last : o < place isProtected pre)
    (later : (moved isProtected source s).start < o) :
    (moved isProtected source s).stop ≤ o := by
  by_cases ends : s.stop ≤ Utf8.size pre
  · exact (stop_le_settled member stands whole ends).trans first
  · exfalso
    rw [moved_eq stands] at later
    by_cases begins : s.start ≤ Utf8.size pre
    · obtain ⟨front, back, rfl, split, -⟩ := stands.split whole begins (by omega)
      cases front with
      | nil =>
        rw [List.append_nil] at last
        simp only at later
        omega
      | cons d front =>
        -- the character is inside the span, after its first character
        obtain ⟨e, rest, same, plain⟩ := stands.first
        rw [same, List.cons_append, List.cons.injEq] at split
        obtain ⟨rfl, split⟩ := split
        have within : Held.Protected isProtected (Utf8.size before + e.utf8Size) front := by
          have whole_inner := protected_inner member stands
          rw [same, split] at whole_inner
          exact whole_inner.tail.of_append
        rw [pending, Held.run_append, Nat.zero_add, Held.run_cons,
          Held.step_prints (.inl plain), Held.breaks_run within rfl] at broken
        cases broken
    · -- the character is written before the span
      have apart : (pre ++ [c]) ++ post = before ++ (inner ++ after) := by
        rw [← stands.whole, whole]
        simp
      rw [stands.start] at begins
      have shorter : Utf8.size (pre ++ [c]) ≤ Utf8.size before := by
        have apart' : pre ++ c :: post = before ++ (inner ++ after) := by
          rw [← apart]
          simp
        obtain ⟨middle, rfl, rest⟩ := Go.exists_middle_of_size_le apart' (by omega)
        cases middle with
        | nil =>
          rw [List.append_nil] at begins
          omega
        | cons d middle =>
          rw [List.cons_append, List.cons.injEq] at rest
          rw [rest.1, Utf8.size_append, Utf8.size_append, Utf8.size_cons, Utf8.size_cons]
          simp
      obtain ⟨middle, rfl, -⟩ := Go.exists_middle_of_size_le apart shorter
      have front := size_le_size (prefix_settled isProtected (pre ++ [c]) middle)
      have prints' : Held.Prints isProtected (0 + Utf8.size pre) c := by rwa [Nat.zero_add]
      rw [settled, Held.run_concat_prints prints', Utf8.size_append] at front
      have place_before := place_eq isProtected (pre ++ [c] ++ middle)
      rw [place] at last
      simp only at later
      omega

end Standing

/-! ### Writing the layout again -/

section Solid

variable (solid : ∀ s ∈ isProtected, isSolid source s)

include solid

/-- A protected newline is protected where it stands in the layout. -/
theorem inside_place {pre post : List Char} (whole : source = pre ++ '\n' :: post)
    (within : inside isProtected (Utf8.size pre)) :
    inside (isProtected.map (moved isProtected source)) (place isProtected pre) := by
  obtain ⟨s, member, first, last⟩ := inside_iff.1 within
  obtain ⟨before, inner, after, stands⟩ := exists_stands (solid s member)
  obtain ⟨front, back, rfl, split, -⟩ := stands.split whole (by omega) last
  have protected_front : Held.Protected isProtected (0 + Utf8.size before) front := by
    have all := protected_inner member stands
    rw [split] at all
    rw [Nat.zero_add]
    exact all.of_append
  have reached : place isProtected (before ++ front) =
      place isProtected before + Utf8.size front := by
    rw [place, Held.reach_append_of_protected protected_front, Utf8.size_append, place]
  have long := congrArg Utf8.size split
  have wide := Char.utf8Size_pos '\n'
  rw [Utf8.size_append, Utf8.size_cons] at long
  rw [stands.start, Utf8.size_append] at first
  rw [inside_iff]
  refine ⟨_, List.mem_map_of_mem member, ?_⟩
  rw [moved_eq stands, reached]
  constructor
  · simp only
    omega
  · simp only
    omega

/-- What was written of a text is written again as it is. -/
theorem run_settled {pre post : List Char} (whole : source = pre ++ post) :
    Held.start.run (isProtected.map (moved isProtected source)) 0 (settled isProtected pre) =
      (settled isProtected pre, ⟨(pending isProtected pre).written, 0, []⟩) := by
  induction pre using List.reverseRecOn generalizing post with
  | nil => rfl
  | append_singleton pre c ih =>
    have whole' : source = pre ++ c :: post := by
      rw [whole]
      simp
    have earlier := ih whole'
    have step : Held.start.run isProtected 0 (pre ++ [c]) =
        (settled isProtected pre ++ ((pending isProtected pre).step isProtected (Utf8.size pre) c).1,
          ((pending isProtected pre).step isProtected (Utf8.size pre) c).2) := by
      rw [Held.run_concat, Nat.zero_add]
      rfl
    rcases Held.char_cases isProtected (Utf8.size pre) c with
      ⟨rfl, outside⟩ | ⟨blank, other⟩ | prints
    · rw [Held.step_newline outside] at step
      rw [settled, pending, step, List.append_nil]
      exact earlier
    · rw [Held.step_blank blank other] at step
      rw [settled, pending, step, List.append_nil]
      exact earlier
    · -- the blanks before the character are written for the second time
      have outside : 0 < (pending isProtected pre).breaks →
          ∀ o, 0 + Utf8.size (settled isProtected pre) ≤ o →
            o < 0 + Utf8.size (settled isProtected pre) +
              Utf8.size (pending isProtected pre).gap →
            inside (isProtected.map (moved isProtected source)) o = false := by
        intro broken o first last
        rw [Nat.zero_add] at first last
        rw [← place_eq] at last
        rw [inside_eq_false_iff]
        intro t found later
        obtain ⟨s, member, rfl⟩ := List.mem_map.1 found
        obtain ⟨before, inner, after, stands⟩ := exists_stands (solid s member)
        exact stop_le_of_gap member stands whole' prints broken first last later
      have prints' : Held.Prints (isProtected.map (moved isProtected source))
          (0 + Utf8.size (settled isProtected pre) + Utf8.size (pending isProtected pre).gap) c := by
        rw [Nat.zero_add, ← place_eq]
        rcases prints with plain | ⟨rfl, within⟩
        · exact .inl plain
        · exact .inr ⟨rfl, inside_place solid whole' within⟩
      rw [Held.step_prints prints] at step
      rw [settled, pending, step]
      rw [Held.run_append, earlier]
      simp only
      rw [Held.run_gap (neat_pending pre) outside prints']
      rfl

/-- The newline that ends the layout is outside the moved spans. -/
theorem outside_settled :
    inside (isProtected.map (moved isProtected source)) (Utf8.size (settled isProtected source)) =
      false := by
  rw [inside_eq_false_iff]
  intro t found _
  obtain ⟨s, member, rfl⟩ := List.mem_map.1 found
  obtain ⟨before, inner, after, stands⟩ := exists_stands (solid s member)
  exact stop_le_settled member stands (List.append_nil source).symm stands.stop_le

/-- The layout is written again as it is. -/
theorem lay_canonicalize :
    Held.start.lay (isProtected.map (moved isProtected source)) 0
      (canonicalize isProtected source) = canonicalize isProtected source := by
  have out : canonicalize isProtected source =
      settled isProtected source ++ (pending isProtected source).close :=
    canonicalize_eq_lay solid
  rw [out, Held.lay_append, run_settled solid (List.append_nil source).symm, Nat.zero_add]
  cases written : (pending isProtected source).written with
  | false => simp [Held.close, Held.lay, Held.run_nil, written]
  | true =>
    have last := Held.step_newline (outside_settled solid) ⟨true, 0, []⟩
    simp [Held.close, Held.lay, Held.run_cons, Held.run_nil, written, last]

end Solid

/-- The canonical layout is stable. Every protected span stands in the layout with the text that it
had, and with the spans at their new places the layout of the layout is the layout itself. -/
theorem canonicalize_moved (solid : ∀ s ∈ isProtected, isSolid source s) :
    ∃ spans : List Span,
      List.Forall₂ (fun s t => t.slice? (canonicalize isProtected source) = s.slice? source)
        isProtected spans ∧
      canonicalize spans (canonicalize isProtected source) = canonicalize isProtected source := by
  have standing : ∀ s ∈ isProtected, ∃ before inner rest,
      s.slice? source = some inner ∧
        Stands (canonicalize isProtected source) (moved isProtected source s) before inner rest := by
    intro s member
    obtain ⟨before, inner, after, stands⟩ := exists_stands (solid s member)
    obtain ⟨rest, stands'⟩ := exists_stands_moved member stands solid
    exact ⟨_, inner, rest, stands.slice?, stands'⟩
  refine ⟨isProtected.map (moved isProtected source), ?_, ?_⟩
  · rw [List.forall₂_map_right_iff, List.forall₂_same]
    intro s member
    obtain ⟨before, inner, rest, text, stands⟩ := standing s member
    rw [stands.slice?, text]
  · have solid' : ∀ t ∈ isProtected.map (moved isProtected source),
        isSolid (canonicalize isProtected source) t := by
      intro t found
      obtain ⟨s, member, rfl⟩ := List.mem_map.1 found
      obtain ⟨before, inner, rest, -, stands⟩ := standing s member
      exact stands.isSolid
    rw [canonicalize_eq_lay solid']
    exact lay_canonicalize solid

/-- Two spans that overlap and share a line with a third; empty lines go before and between them. -/
theorem canonicalize_moved_overlapping :
    let source := "\n\n\n/* a \n\n b */ `c` \n\n\n\nd\n \n".toList
    let spans : List Span := [⟨3, 15⟩, ⟨16, 19⟩, ⟨6, 18⟩]
    (∀ s ∈ spans, isSolid source s) ∧ ∃ moved : List Span,
      List.Forall₂ (fun s t => t.slice? (canonicalize spans source) = s.slice? source) spans moved ∧
      canonicalize moved (canonicalize spans source) = canonicalize spans source := by
  intro source spans
  have solid : ∀ s ∈ spans, isSolid source s := by decide
  exact ⟨solid, canonicalize_moved solid⟩

end Marginalia.Layout
