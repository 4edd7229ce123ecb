/-
Module: Marginalia.Proofs.Go.CommentText
Purpose: The lines that are left of a group of comments, and its text without blanks at the ends.
Main exports:
  CommentGroup.OneLined, linesOf, filterMap_collapse, CommentGroup.filterMap_lines,
  CommentGroup.linesOf_text, CommentGroup.splitOn_trim_text, CommentGroup.linesOf_trim_text
-/
import Marginalia.Go.Comment
import Marginalia.Proofs.Text.Chars
import Mathlib.Data.List.DropRight

namespace Marginalia.Go

open Text (isBlank splitOn joinWith trim trimStart trimEnd)

/-- The lines of a text; a newline at its end begins no further line. -/
def linesOf (text : List Char) : List (List Char) :=
  let pieces := splitOn '\n' text
  if pieces.getLast? = some [] then pieces.dropLast else pieces

/-- The line comments of a group end before the newline. -/
def CommentGroup.OneLined (group : CommentGroup) : Prop :=
  ∀ comment ∈ group.comments, ['/', '/'] <+: comment.toList → '\n' ∉ comment.toList

/-! ### Dropping empty lines -/

theorem collapse_sublist (blank : Bool) (lines : List (List Char)) :
    (collapse blank lines).Sublist lines := by
  fun_induction collapse blank lines with
  | case1 => exact .slnil
  | case2 lines ih => exact ih.cons _
  | case3 blank lines _ ih => exact ih.cons_cons _
  | case4 blank line lines _ ih => exact ih.cons_cons _

/-- What is read from the lines that hold something is not changed. -/
theorem filterMap_collapse {α : Type} {read : List Char → Option α} (skips : read [] = none)
    (blank : Bool) (lines : List (List Char)) :
    (collapse blank lines).filterMap read = lines.filterMap read := by
  fun_induction collapse blank lines with
  | case1 => rfl
  | case2 lines ih => simp [skips, ih]
  | case3 blank lines _ ih => simp [skips, ih]
  | case4 blank line lines _ ih => simp [List.filterMap_cons, ih]

theorem head?_collapse {lines : List (List Char)} {first : List Char}
    (begins : (collapse true lines).head? = some first) : first ≠ [] := by
  generalize above : true = blank at begins
  fun_induction collapse blank lines with
  | case1 => cases begins
  | case2 lines ih => exact ih rfl begins
  | case3 blank lines open_ => exact absurd above.symm open_
  | case4 blank line lines nonempty =>
    cases begins
    exact fun empty => nonempty empty

theorem filterMap_rdropWhile {α : Type} {read : List Char → Option α} (skips : read [] = none)
    (lines : List (List Char)) :
    (lines.rdropWhile List.isEmpty).filterMap read = lines.filterMap read := by
  induction lines using List.reverseRecOn with
  | nil => rfl
  | append_singleton lines last ih =>
    by_cases empty : last.isEmpty
    · rw [List.rdropWhile_concat_pos _ _ _ empty, ih, List.isEmpty_iff.1 empty]
      simp [skips]
    · rw [List.rdropWhile_concat_neg _ _ _ empty]

/-! ### Lines ended by newlines -/

theorem splitOn_flatMap_append {lines : List (List Char)} (clear : ∀ line ∈ lines, '\n' ∉ line)
    (rest : List Char) :
    splitOn '\n' (lines.flatMap (· ++ ['\n']) ++ rest) = lines ++ splitOn '\n' rest := by
  induction lines with
  | nil => rfl
  | cons line lines ih =>
    obtain ⟨first, others⟩ := List.forall_mem_cons.1 clear
    have whole : (line :: lines).flatMap (· ++ ['\n']) ++ rest =
        line ++ '\n' :: (lines.flatMap (· ++ ['\n']) ++ rest) := by simp
    rw [whole, Text.splitOn_append first, ih others, List.cons_append]

/-- A line that ends with no blank has the same end without its blanks in front. -/
theorem getLast?_trimStart {line : List Char} (nonempty : line ≠ [])
    (solid : ∀ c ∈ line.getLast?, isBlank c = false) :
    trimStart line ≠ [] ∧ (trimStart line).getLast? = line.getLast? := by
  obtain ⟨init, last, rfl⟩ := (List.eq_nil_or_concat line).resolve_left nonempty
  have ends : isBlank last = false := solid last (by simp)
  have kept : trimStart (init ++ [last]) = trimStart init ++ [last] := by
    rw [trimStart, List.dropWhile_append, trimStart]
    split
    · rename_i empty
      rw [List.isEmpty_iff.1 empty, List.dropWhile_cons_of_neg (by simp [ends]), List.nil_append]
    · rfl
  simp [kept]

/-- Trimming lines that end with no blank takes the last newline and the blanks in front of the
first line, when the first and the last line hold something. -/
theorem splitOn_trim_flatMap {first : List Char} {rest : List (List Char)}
    (clear : ∀ line ∈ first :: rest, '\n' ∉ line)
    (solid : ∀ line ∈ first :: rest, ∀ c ∈ line.getLast?, isBlank c = false) (full : first ≠ [])
    (last_full : ∀ line ∈ rest.getLast?, line ≠ []) :
    splitOn '\n' (trim ((first :: rest).flatMap (· ++ ['\n']))) = trimStart first :: rest := by
  obtain ⟨nonempty, ends⟩ := getLast?_trimStart full (solid first List.mem_cons_self)
  have front : trimStart ((first :: rest).flatMap (· ++ ['\n'])) =
      (trimStart first :: rest).flatMap (· ++ ['\n']) := by
    rw [trimStart, List.flatMap_cons, List.append_assoc, List.dropWhile_append, ← trimStart,
      if_neg (by simpa using nonempty)]
    simp
  obtain ⟨init, last, split⟩ : ∃ init last, trimStart first :: rest = init ++ [last] :=
    ⟨_, _, (List.dropLast_append_getLast (List.cons_ne_nil _ _)).symm⟩
  have last_solid : last ≠ [] ∧ ∀ c ∈ last.getLast?, isBlank c = false := by
    rcases rest.eq_nil_or_concat with rfl | ⟨others, line, rfl⟩
    · obtain rfl : trimStart first = last := by simpa using congrArg List.getLast? split
      rw [ends]
      exact ⟨nonempty, solid first List.mem_cons_self⟩
    · obtain rfl : line = last := by
        simpa [List.getLast?_cons] using congrArg List.getLast? split
      exact ⟨last_full line (by simp), solid line (by simp)⟩
  have clear' : ∀ line ∈ init ++ [last], '\n' ∉ line := by
    rw [← split]
    refine List.forall_mem_cons.2
      ⟨?_, fun line member => clear line (List.mem_cons_of_mem _ member)⟩
    exact fun newline => clear first List.mem_cons_self ((List.dropWhile_suffix _).mem newline)
  obtain ⟨others_clear, last_clear⟩ := List.forall_mem_append.1 clear'
  have back : trimEnd ((init ++ [last]).flatMap (· ++ ['\n'])) =
      init.flatMap (· ++ ['\n']) ++ last := by
    have whole : (init ++ [last]).flatMap (· ++ ['\n']) =
        init.flatMap (· ++ ['\n']) ++ last ++ ['\n'] := by simp
    rw [whole]
    refine Text.trimEnd_append (by simp [isBlank]) fun c ending => last_solid.2 c ?_
    rwa [List.getLast?_append_of_ne_nil _ last_solid.1] at ending
  rw [trim, front, split, back, splitOn_flatMap_append others_clear,
    Text.splitOn_of_not_mem (last_clear last (List.mem_singleton_self last))]

/-! ### The lines of a group -/

namespace CommentGroup

variable {group : CommentGroup}

theorem lines_eq (group : CommentGroup) :
    group.lines = (collapse true
      ((group.comments.flatMap fun c => commentLines c.toList).map trimEnd)).rdropWhile
        List.isEmpty := rfl

/-- What is read from a line by its text without blanks is read from the lines of a group exactly
as from the lines of its comments. -/
theorem filterMap_lines {α : Type} {read : List Char → Option α} (skips : read [] = none)
    (trims : ∀ line, read (trimEnd line) = read line) :
    group.lines.filterMap read =
      (group.comments.flatMap fun c => commentLines c.toList).filterMap read := by
  rw [lines_eq, filterMap_rdropWhile skips, filterMap_collapse skips, List.filterMap_map]
  exact List.filterMap_congr fun line _ => trims line

theorem exists_of_mem_lines {line : List Char} (member : line ∈ group.lines) :
    ∃ comment ∈ group.comments, ∃ whole ∈ commentLines comment.toList, line = trimEnd whole := by
  have kept := (List.rdropWhile_prefix List.isEmpty _).mem member
  have made := (collapse_sublist _ _).mem kept
  simp only [List.mem_map, List.mem_flatMap] at made
  obtain ⟨whole, ⟨comment, written, part⟩, rfl⟩ := made
  exact ⟨comment, written, whole, part, rfl⟩

theorem head?_lines {first : List Char} (begins : group.lines.head? = some first) : first ≠ [] := by
  obtain ⟨rest, whole⟩ := List.head?_eq_some_iff.1 begins
  obtain ⟨dropped, split⟩ := List.rdropWhile_prefix List.isEmpty
    (collapse true ((group.comments.flatMap fun c => commentLines c.toList).map trimEnd))
  rw [← lines_eq, whole] at split
  apply head?_collapse
  rw [← split]
  rfl

theorem getLast?_lines {last : List Char} (ends : group.lines.getLast? = some last) :
    last ≠ [] := by
  have nonempty : group.lines ≠ [] := by
    intro lineless
    rw [lineless] at ends
    cases ends
  have full : ¬(group.lines.getLast nonempty).isEmpty :=
    List.rdropWhile_last_not List.isEmpty _ nonempty
  rw [List.getLast?_eq_getLast_of_ne_nil nonempty, Option.some.injEq] at ends
  rw [ends] at full
  exact fun empty => full (List.isEmpty_iff.2 empty)

/-- A line has no blank at its end. -/
theorem solid_of_mem_lines {line : List Char} (member : line ∈ group.lines) :
    ∀ c ∈ line.getLast?, isBlank c = false := by
  obtain ⟨-, -, whole, -, rfl⟩ := exists_of_mem_lines member
  obtain ⟨-, -, -, solid⟩ := Text.trimEnd_eq_append whole
  exact solid

/-- A line holds no newline. -/
theorem clear_of_mem_lines (oneLined : group.OneLined) {line : List Char}
    (member : line ∈ group.lines) : '\n' ∉ line := by
  obtain ⟨comment, written, whole, part, rfl⟩ := exists_of_mem_lines member
  have body_clear : ∀ body, Text.after? ['/', '/'] comment.toList = some body → '\n' ∉ body := by
    intro body after newline
    have split := Text.after?_eq_some_iff.1 after
    refine oneLined comment written ⟨body, split.symm⟩ ?_
    rw [split]
    exact List.mem_append_right _ newline
  have clear : '\n' ∉ whole := by
    unfold commentLines at part
    split at part
    · rw [List.mem_singleton.1 part]
      exact List.not_mem_nil
    · rename_i body after
      rw [List.mem_singleton.1 part]
      exact fun newline => body_clear _ after (List.mem_cons_of_mem _ newline)
    · rename_i body _ _ after
      split at part
      · cases part
      · rw [List.mem_singleton.1 part]
        exact body_clear body after
    · split at part
      · exact Text.not_mem_of_mem_splitOn part
      · exact Text.not_mem_of_mem_splitOn part
  obtain ⟨tail, trimmed, -⟩ := Text.trimEnd_eq_append whole
  rw [trimmed] at clear
  exact fun newline => clear (List.mem_append_left _ newline)

theorem toList_text (group : CommentGroup) :
    group.text.toList = group.lines.flatMap (· ++ ['\n']) := by
  simp [text]

/-- The lines of the text of a group are the lines that are left of its comments. -/
theorem linesOf_text (oneLined : group.OneLined) : linesOf group.text.toList = group.lines := by
  have pieces : splitOn '\n' group.text.toList = group.lines ++ [[]] := by
    have whole := splitOn_flatMap_append (fun line => clear_of_mem_lines oneLined) []
    rwa [List.append_nil, ← toList_text] at whole
  rw [linesOf, pieces]
  simp

/-- Without the blanks at its ends the text of a group has the same lines, but for the blanks in
front of the first. -/
theorem splitOn_trim_text (oneLined : group.OneLined) (nonempty : group.lines ≠ []) :
    splitOn '\n' (trim group.text.toList) = group.lines.modifyHead trimStart := by
  have clear : ∀ line ∈ group.lines, '\n' ∉ line := fun line => clear_of_mem_lines oneLined
  have solid : ∀ line ∈ group.lines, ∀ c ∈ line.getLast?, isBlank c = false :=
    fun line => solid_of_mem_lines
  have head : ∀ line, group.lines.head? = some line → line ≠ [] := fun line => head?_lines
  have last : ∀ line, group.lines.getLast? = some line → line ≠ [] := fun line => getLast?_lines
  rw [toList_text]
  obtain ⟨first, rest, whole⟩ := List.exists_cons_of_ne_nil nonempty
  rw [whole] at clear solid head last ⊢
  refine splitOn_trim_flatMap clear solid (head first rfl) fun line ends => last line ?_
  rw [List.getLast?_cons, Option.mem_def.1 ends, Option.getD_some]

theorem getLast?_trimmed {last : List Char}
    (ends : (group.lines.modifyHead trimStart).getLast? = some last) : last ≠ [] := by
  have solid : ∀ line ∈ group.lines, ∀ c ∈ line.getLast?, isBlank c = false :=
    fun line => solid_of_mem_lines
  have full : ∀ line, group.lines.getLast? = some line → line ≠ [] := fun line => getLast?_lines
  cases whole : group.lines with
  | nil => simp [whole] at ends
  | cons first rest =>
    rw [whole] at solid full ends
    rcases rest.eq_nil_or_concat with rfl | ⟨others, line, rfl⟩
    · obtain rfl : trimStart first = last := by simpa using ends
      exact (getLast?_trimStart (full first rfl) (solid first List.mem_cons_self)).1
    · obtain rfl : line = last := by simpa [List.getLast?_cons] using ends
      exact full line (by simp [List.getLast?_cons])

/-- Without the blanks at its ends the text of a group has as many lines as before. -/
theorem linesOf_trim_text (oneLined : group.OneLined) :
    linesOf (trim group.text.toList) = group.lines.modifyHead trimStart := by
  by_cases lineless : group.lines = []
  · rw [toList_text, lineless]
    rfl
  · rw [linesOf, splitOn_trim_text oneLined lineless,
      if_neg fun empty => getLast?_trimmed empty rfl]

theorem text_ne_empty_iff : group.text ≠ "" ↔ group.lines ≠ [] := by
  rw [not_iff_not, ← String.toList_inj, toList_text]
  cases group.lines <;> simp

end CommentGroup
end Marginalia.Go
