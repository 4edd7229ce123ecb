/-
Module: Marginalia.Proofs.Text.Chars
Purpose: What cutting a text at a lead or at a separator gives.
Main exports:
  after?_eq_some_iff, cut?_eq_some_iff, cut?_eq_none_iff, splitOn_append, splitOn_joinWith,
  joinWith_splitOn, trimEnd_append, trimEnd_eq_append, trim_trimEnd, trim_trimStart
-/
import Marginalia.Text.Chars
import Mathlib.Data.List.TakeWhile
import Mathlib.Tactic

namespace Marginalia.Text

/-- A text has something after a lead exactly when it is the lead and that. -/
theorem after?_eq_some_iff {lead cs rest : List Char} :
    after? lead cs = some rest ↔ cs = lead ++ rest := by
  induction lead generalizing cs with
  | nil => simp [after?]
  | cons l lead ih =>
    cases cs with
    | nil => simp [after?]
    | cons c cs =>
      by_cases same : l = c
      · simp [after?, same, ih]
      · simp [after?, same, Ne.symm same]

/-- A text has something before a tail exactly when it ends with the tail. -/
theorem isSome_before?_iff {tail cs : List Char} : (before? tail cs).isSome ↔ tail <:+ cs := by
  rw [before?, Option.isSome_map, ← List.reverse_prefix]
  constructor
  · intro found
    obtain ⟨rest, after⟩ := Option.isSome_iff_exists.1 found
    exact ⟨rest, (after?_eq_some_iff.1 after).symm⟩
  · rintro ⟨rest, whole⟩
    rw [after?_eq_some_iff.2 whole.symm]
    rfl

/-- A text is cut at the first occurrence of a separator. -/
theorem cut?_eq_some_iff {sep : Char} {cs head rest : List Char} :
    cut? [sep] cs = some (head, rest) ↔ cs = head ++ sep :: rest ∧ sep ∉ head := by
  induction cs generalizing head with
  | nil => simp [cut?, after?]
  | cons c cs ih =>
    by_cases same : sep = c
    · subst same
      cases head with
      | nil => simp [cut?, after?]
      | cons h head =>
        simp only [cut?, after?, if_true, Option.some.injEq, Prod.mk.injEq, List.cons_append,
          List.cons.injEq, List.mem_cons, not_or]
        constructor
        · rintro ⟨absurd, -⟩
          cases absurd
        · rintro ⟨⟨rfl, -⟩, differ, -⟩
          exact absurd rfl differ
    · cases head with
      | nil =>
        simp only [cut?, after?, if_neg same, Option.map_eq_some_iff, List.nil_append,
          List.cons.injEq]
        constructor
        · rintro ⟨pair, -, wrong⟩
          cases wrong
        · rintro ⟨⟨rfl, -⟩, -⟩
          exact absurd rfl same
      | cons h head =>
        simp only [cut?, after?, if_neg same, Option.map_eq_some_iff, List.cons_append,
          List.cons.injEq, List.mem_cons, not_or]
        constructor
        · rintro ⟨⟨front, back⟩, cut, made⟩
          simp only [Prod.mk.injEq, List.cons.injEq] at made
          obtain ⟨⟨rfl, rfl⟩, rfl⟩ := made
          obtain ⟨whole, clear⟩ := ih.1 cut
          exact ⟨⟨rfl, whole⟩, same, clear⟩
        · rintro ⟨⟨rfl, whole⟩, -, clear⟩
          exact ⟨(head, rest), ih.2 ⟨whole, clear⟩, rfl⟩

/-- A text is not cut exactly when it lacks the separator. -/
theorem cut?_eq_none_iff {sep : Char} {cs : List Char} : cut? [sep] cs = none ↔ sep ∉ cs := by
  constructor
  · intro uncut member
    obtain ⟨head, rest, whole, clear⟩ := List.eq_append_cons_of_mem member
    rw [cut?_eq_some_iff.2 ⟨whole, clear⟩] at uncut
    cases uncut
  · intro absent
    cases cut : cut? [sep] cs with
    | none => rfl
    | some parts =>
      obtain ⟨head, rest⟩ := parts
      obtain ⟨whole, -⟩ := cut?_eq_some_iff.1 cut
      rw [whole] at absent
      simp at absent

/-! ### Splitting -/

theorem splitOn_ne_nil (sep : Char) (cs : List Char) : splitOn sep cs ≠ [] := by
  cases cs with
  | nil => simp [splitOn]
  | cons c cs =>
    rw [splitOn]
    split
    · simp
    · split <;> simp

theorem splitOn_of_not_mem {sep : Char} {cs : List Char} (clear : sep ∉ cs) :
    splitOn sep cs = [cs] := by
  induction cs with
  | nil => rfl
  | cons c cs ih =>
    simp only [List.mem_cons, not_or] at clear
    rw [splitOn, if_neg (Ne.symm clear.1), ih clear.2]

theorem splitOn_append {sep : Char} {piece : List Char} (clear : sep ∉ piece) (rest : List Char) :
    splitOn sep (piece ++ sep :: rest) = piece :: splitOn sep rest := by
  induction piece with
  | nil => simp [splitOn]
  | cons c piece ih =>
    simp only [List.mem_cons, not_or] at clear
    rw [List.cons_append, splitOn, if_neg (Ne.symm clear.1), ih clear.2]

/-! ### Joining -/

theorem toList_intercalate (sep : String) (texts : List String) :
    (sep.intercalate texts).toList = joinWith sep.toList (texts.map String.toList) := by
  induction texts with
  | nil => rfl
  | cons text texts ih =>
    cases texts with
    | nil => simp [joinWith]
    | cons next texts =>
      rw [String.intercalate_cons_cons, String.toList_append, String.toList_append, ih]
      simp [joinWith]

theorem splitOn_joinWith {sep : Char} {pieces : List (List Char)} (nonempty : pieces ≠ [])
    (clear : ∀ piece ∈ pieces, sep ∉ piece) : splitOn sep (joinWith [sep] pieces) = pieces := by
  induction pieces with
  | nil => exact absurd rfl nonempty
  | cons piece pieces ih =>
    obtain ⟨first, others⟩ := List.forall_mem_cons.1 clear
    cases pieces with
    | nil => exact splitOn_of_not_mem first
    | cons next pieces =>
      rw [joinWith, List.append_assoc, List.singleton_append, splitOn_append first,
        ih (List.cons_ne_nil _ _) others]
      exact List.cons_ne_nil _ _

theorem joinWith_cons {sep piece : List Char} {pieces : List (List Char)} (more : pieces ≠ []) :
    joinWith sep (piece :: pieces) = piece ++ sep ++ joinWith sep pieces := by
  cases pieces with
  | nil => exact absurd rfl more
  | cons next pieces => rfl

/-- A character other than the separator belongs to the first piece. -/
theorem splitOn_cons_of_ne {sep c : Char} (differ : c ≠ sep) (cs : List Char) :
    ∃ piece pieces, splitOn sep cs = piece :: pieces ∧
      splitOn sep (c :: cs) = (c :: piece) :: pieces := by
  obtain ⟨piece, pieces, split⟩ := List.exists_cons_of_ne_nil (splitOn_ne_nil sep cs)
  exact ⟨piece, pieces, split, by rw [splitOn, if_neg differ, split]⟩

theorem joinWith_splitOn (sep : Char) (cs : List Char) : joinWith [sep] (splitOn sep cs) = cs := by
  induction cs with
  | nil => rfl
  | cons c cs ih =>
    by_cases same : c = sep
    · rw [splitOn, if_pos same, joinWith_cons (splitOn_ne_nil sep cs), ih, same]
      rfl
    · obtain ⟨piece, pieces, split, split'⟩ := splitOn_cons_of_ne same cs
      rw [split] at ih
      rw [split', ← ih]
      cases pieces with
      | nil => rfl
      | cons next pieces => rfl

theorem not_mem_of_mem_splitOn {sep : Char} {cs piece : List Char}
    (member : piece ∈ splitOn sep cs) : sep ∉ piece := by
  induction cs generalizing piece with
  | nil => simp_all [splitOn]
  | cons c cs ih =>
    by_cases same : c = sep
    · rw [splitOn, if_pos same, List.mem_cons] at member
      rcases member with rfl | member
      · exact List.not_mem_nil
      · exact ih member
    · obtain ⟨first, pieces, split, split'⟩ := splitOn_cons_of_ne same cs
      rw [split', List.mem_cons] at member
      rw [split] at ih
      rcases member with rfl | member
      · rw [List.mem_cons, not_or]
        exact ⟨Ne.symm same, ih List.mem_cons_self⟩
      · exact ih (List.mem_cons_of_mem _ member)

theorem splitOn_append_sep (sep : Char) (cs ds : List Char) :
    splitOn sep (cs ++ sep :: ds) = splitOn sep cs ++ splitOn sep ds := by
  induction cs with
  | nil => simp [splitOn]
  | cons c cs ih =>
    by_cases same : c = sep
    · rw [List.cons_append, splitOn, if_pos same, splitOn, if_pos same, ih, List.cons_append]
    · obtain ⟨first, pieces, split, split'⟩ := splitOn_cons_of_ne same cs
      rw [split', List.cons_append, splitOn, if_neg same, ih, split]
      rfl

/-- The last piece of a text goes on in the first piece of the text behind it. -/
theorem splitOn_append_pieces {sep : Char} {cs ds last first : List Char}
    {init rest : List (List Char)} (front : splitOn sep cs = init ++ [last])
    (back : splitOn sep ds = first :: rest) :
    splitOn sep (cs ++ ds) = init ++ (last ++ first) :: rest := by
  induction cs generalizing init last with
  | nil =>
    obtain ⟨rfl, same⟩ := List.append_inj' (front.symm.trans (List.nil_append [[]]).symm) rfl
    obtain rfl := List.singleton_inj.1 same
    simpa using back
  | cons c cs ih =>
    by_cases same : c = sep
    · rw [splitOn, if_pos same] at front
      cases init with
      | nil => exact absurd (List.cons.inj front).2 (splitOn_ne_nil sep cs)
      | cons piece init =>
        obtain ⟨rfl, inner⟩ := List.cons.inj front
        rw [List.cons_append, splitOn, if_pos same, ih inner, List.cons_append]
    · obtain ⟨piece, pieces, split, split'⟩ := splitOn_cons_of_ne same cs
      rw [split'] at front
      rw [List.cons_append, splitOn, if_neg same]
      cases init with
      | nil =>
        obtain ⟨rfl, rfl⟩ := List.cons.inj front
        have inner : splitOn sep cs = [] ++ [piece] := split
        rw [ih inner]
        rfl
      | cons p init =>
        obtain ⟨rfl, rfl⟩ := List.cons.inj front
        have inner : splitOn sep cs = (piece :: init) ++ [last] := split
        rw [ih inner]
        rfl

/-- The last piece is all that follows the last separator. -/
theorem splitOn_getLast? (sep : Char) (cs : List Char) :
    ∃ last, (splitOn sep cs).getLast? = some last ∧ sep ∉ last ∧
      (cs = last ∨ ∃ front, cs = front ++ sep :: last) := by
  by_cases member : sep ∈ cs
  · obtain ⟨back, front, whole, clear⟩ := List.eq_append_cons_of_mem (List.mem_reverse.2 member)
    have whole : cs = front.reverse ++ sep :: back.reverse := by
      rw [← List.reverse_reverse cs, whole]
      simp
    have clear : sep ∉ back.reverse := by simpa using clear
    refine ⟨back.reverse, ?_, clear, .inr ⟨front.reverse, whole⟩⟩
    rw [whole, splitOn_append_sep, splitOn_of_not_mem clear]
    simp
  · exact ⟨cs, by simp [splitOn_of_not_mem member], member, .inl rfl⟩

theorem length_splitOn_le (sep : Char) (cs : List Char) :
    (splitOn sep cs).length ≤ cs.length + 1 := by
  induction cs with
  | nil => simp [splitOn]
  | cons c cs ih =>
    by_cases same : c = sep
    · simpa [splitOn, same] using ih
    · obtain ⟨first, pieces, split, split'⟩ := splitOn_cons_of_ne same cs
      rw [split] at ih
      rw [split']
      simp only [List.length_cons] at ih ⊢
      omega

/-! ### Blanks at the end -/

theorem trimEnd_append {core tail : List Char} (blank : ∀ c ∈ tail, isBlank c)
    (solid : ∀ c ∈ core.getLast?, isBlank c = false) : trimEnd (core ++ tail) = core := by
  have all : tail.reverse.dropWhile isBlank = [] := by
    rw [List.dropWhile_eq_nil_iff]
    intro c member
    exact blank c (List.mem_reverse.1 member)
  rw [trimEnd, dropEndWhile, List.reverse_append, List.dropWhile_append, all]
  rcases core.eq_nil_or_concat with rfl | ⟨init, last, rfl⟩
  · rfl
  · simp [solid last (by simp)]

theorem trimEnd_of_last {cs : List Char} (solid : ∀ c ∈ cs.getLast?, isBlank c = false) :
    trimEnd cs = cs := by
  simpa using @trimEnd_append cs [] (by simp) solid

theorem trimEnd_eq_append (cs : List Char) :
    ∃ tail, cs = trimEnd cs ++ tail ∧ (∀ c ∈ tail, isBlank c) ∧
      ∀ c ∈ (trimEnd cs).getLast?, isBlank c = false := by
  refine ⟨(cs.reverse.takeWhile isBlank).reverse, ?_, ?_, ?_⟩
  · rw [trimEnd, dropEndWhile, ← List.reverse_append, List.takeWhile_append_dropWhile,
      List.reverse_reverse]
  · intro c member
    exact List.mem_takeWhile_imp (List.mem_reverse.1 member)
  · intro c last
    rw [trimEnd, dropEndWhile, List.getLast?_reverse] at last
    have solid := List.head?_dropWhile_not isBlank cs.reverse
    rw [last] at solid
    simpa using solid

theorem trimEnd_cons {c : Char} (solid : isBlank c = false) (cs : List Char) :
    trimEnd (c :: cs) = c :: trimEnd cs := by
  obtain ⟨tail, trimmed, blank, last⟩ := trimEnd_eq_append cs
  nth_rewrite 1 [trimmed]
  rw [← List.cons_append]
  refine trimEnd_append blank fun d end_ => ?_
  rw [List.getLast?_cons, Option.mem_def, Option.some.injEq] at end_
  cases known : (trimEnd cs).getLast? with
  | none =>
    rw [known, Option.getD_none] at end_
    rw [← end_, solid]
  | some e =>
    rw [known, Option.getD_some] at end_
    rw [← end_]
    exact last e known

theorem trimEnd_append_blank {tail : List Char} (blank : ∀ c ∈ tail, isBlank c)
    (cs : List Char) : trimEnd (cs ++ tail) = trimEnd cs := by
  obtain ⟨more, trimmed, blank', solid⟩ := trimEnd_eq_append cs
  nth_rewrite 1 [trimmed]
  rw [List.append_assoc]
  refine trimEnd_append (fun c member => ?_) solid
  exact (List.mem_append.1 member).elim (blank' c) (blank c)

/-! ### Blanks at both ends -/

theorem trim_cons_of_blank {c : Char} (blank : isBlank c) (cs : List Char) :
    trim (c :: cs) = trim cs := by
  rw [trim, trim, trimStart, List.dropWhile_cons_of_pos blank, trimStart]

theorem trim_cons_of_solid {c : Char} (solid : isBlank c = false) (cs : List Char) :
    trim (c :: cs) = c :: trimEnd cs := by
  rw [trim, trimStart, List.dropWhile_cons_of_neg (by simp [solid]), trimEnd_cons solid]

theorem trim_trimStart (cs : List Char) : trim (trimStart cs) = trim cs := by
  induction cs with
  | nil => rfl
  | cons c cs ih =>
    cases kind : isBlank c with
    | true =>
      rw [trimStart, List.dropWhile_cons_of_pos kind, ← trimStart, ih, trim_cons_of_blank kind]
    | false => rw [trimStart, List.dropWhile_cons_of_neg (by simp [kind])]

theorem trim_append_blank {tail : List Char} (blank : ∀ c ∈ tail, isBlank c) (cs : List Char) :
    trim (cs ++ tail) = trim cs := by
  induction cs with
  | nil =>
    have dropped : tail.dropWhile isBlank = [] := List.dropWhile_eq_nil_iff.2 blank
    rw [List.nil_append, trim, trimStart, dropped]
    rfl
  | cons c cs ih =>
    rw [List.cons_append]
    cases kind : isBlank c with
    | true => rw [trim_cons_of_blank kind, trim_cons_of_blank kind, ih]
    | false => rw [trim_cons_of_solid kind, trim_cons_of_solid kind, trimEnd_append_blank blank]

theorem trim_trimEnd (cs : List Char) : trim (trimEnd cs) = trim cs := by
  obtain ⟨tail, trimmed, blank, -⟩ := trimEnd_eq_append cs
  nth_rewrite 2 [trimmed]
  rw [trim_append_blank blank]

/-! ### Parts of a text -/

theorem trim_within (cs : List Char) : trim cs <:+: cs := by
  obtain ⟨tail, trimmed, -⟩ := trimEnd_eq_append (trimStart cs)
  have front : trim cs <+: trimStart cs := ⟨tail, trimmed.symm⟩
  exact front.isInfix.trans (List.dropWhile_suffix _).isInfix

theorem piece_within {sep : Char} {cs piece : List Char} (member : piece ∈ splitOn sep cs) :
    piece <:+: cs := by
  induction cs generalizing piece with
  | nil =>
    rw [List.mem_singleton.1 member]
  | cons c cs ih =>
    by_cases same : c = sep
    · rw [splitOn, if_pos same, List.mem_cons] at member
      rcases member with rfl | member
      · exact List.nil_infix
      · exact (ih member).trans (List.suffix_cons c cs).isInfix
    · obtain ⟨first, pieces, split, split'⟩ := splitOn_cons_of_ne same cs
      rw [split', List.mem_cons] at member
      rcases member with rfl | member
      · -- the first piece is a part from the start, which the new character only makes longer
        have whole := joinWith_splitOn sep cs
        rw [split] at whole
        refine List.IsPrefix.isInfix ((List.prefix_cons_inj c).2 ?_)
        rw [← whole]
        cases pieces with
        | nil => exact List.prefix_rfl
        | cons next pieces =>
          rw [joinWith_cons (List.cons_ne_nil _ _), List.append_assoc]
          exact List.prefix_append _ _
      · have inner : piece ∈ splitOn sep cs := by simp [split, member]
        exact (ih inner).trans (List.suffix_cons c cs).isInfix

/-- A part without a separator stands on one side of it. -/
theorem within_of_not_mem {sep : Char} {part front back : List Char} (clear : sep ∉ part)
    (inside : part <:+: front ++ sep :: back) : part <:+: front ∨ part <:+: back := by
  obtain ⟨before, after, whole⟩ := inside
  rw [List.append_eq_append_iff] at whole
  rcases whole with ⟨rest, rfl, -⟩ | ⟨rest, ends, split⟩
  · exact .inl ⟨before, rest, rfl⟩
  · cases rest with
    | nil => exact .inl ⟨before, [], by simpa using ends⟩
    | cons c rest =>
      obtain ⟨rfl, rfl⟩ := List.cons.inj split
      rw [List.append_eq_append_iff] at ends
      rcases ends with ⟨inner, -, rfl⟩ | ⟨inner, -, tail⟩
      · simp at clear
      · cases inner with
        | nil =>
          rw [List.nil_append] at tail
          simp [← tail] at clear
        | cons c inner =>
          obtain ⟨-, rfl⟩ := List.cons.inj tail
          exact .inr ⟨inner, after, by simp⟩

end Marginalia.Text
