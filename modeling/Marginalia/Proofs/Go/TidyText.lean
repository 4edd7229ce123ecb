/-
Module: Marginalia.Proofs.Go.TidyText
Purpose: The normal form of the text of comments, and that a text in it is read back from line
  comments.
Main exports:
  Tidy, isChain_collapse, collapse_of_isChain, CommentGroup.tidy_lines, CommentGroup.ofLines,
  CommentGroup.lines_ofLines, CommentGroup.text_normal
-/
import Marginalia.Proofs.Go.CommentText

namespace Marginalia.Go

open Text (isBlank trimEnd)

/-- A line without anything but blanks. -/
def IsBlankLine (line : List Char) : Prop := ∀ c ∈ line, isBlank c = true

instance (line : List Char) : Decidable (IsBlankLine line) :=
  inferInstanceAs (Decidable (∀ c ∈ line, isBlank c = true))

/-- Lines as the text of a group of comments has them: without blanks at their ends, the first and
the last not blank, and no two blank ones in a row. -/
structure Tidy (lines : List (List Char)) : Prop where
  clear : ∀ line ∈ lines, '\n' ∉ line
  solid : ∀ line ∈ lines, ∀ c ∈ line.getLast?, isBlank c = false
  first : ∀ line ∈ lines.head?, ¬IsBlankLine line
  last : ∀ line ∈ lines.getLast?, ¬IsBlankLine line
  apart : lines.IsChain fun line next => IsBlankLine line → ¬IsBlankLine next

/-- A line without a blank at its end is blank only if it is empty. -/
theorem isBlankLine_iff {line : List Char} (solid : ∀ c ∈ line.getLast?, isBlank c = false) :
    IsBlankLine line ↔ line = [] := by
  constructor
  · intro blank
    rcases line.eq_nil_or_concat with rfl | ⟨init, last, rfl⟩
    · rfl
    · have kept := solid last (by simp)
      have dropped := blank last (by simp)
      rw [kept] at dropped
      cases dropped
  · rintro rfl c ⟨⟩

/-! ### Lines without two empty ones in a row -/

/-- After an empty line comes one that holds something. -/
def Filled (line next : List Char) : Prop := line = [] → next ≠ []

/-- Of lines without blanks at their ends, the blank ones are the empty ones. -/
theorem isChain_filled_iff {lines : List (List Char)}
    (solid : ∀ line ∈ lines, ∀ c ∈ line.getLast?, isBlank c = false) :
    lines.IsChain Filled ↔
      lines.IsChain fun line next => IsBlankLine line → ¬IsBlankLine next := by
  refine List.IsChain.iff_of_mem_imp fun line next member member' => ?_
  rw [isBlankLine_iff (solid line member), isBlankLine_iff (solid next member')]
  rfl

/-- No two empty lines are left in a row. -/
theorem isChain_collapse (blank : Bool) (lines : List (List Char)) :
    (collapse blank lines).IsChain Filled := by
  fun_induction collapse blank lines with
  | case1 => exact .nil
  | case2 lines ih => exact ih
  | case3 blank lines _ ih =>
    refine List.isChain_cons.2 ⟨fun next begins _ => ?_, ih⟩
    exact head?_collapse begins
  | case4 blank line lines nonempty ih =>
    refine List.isChain_cons.2 ⟨fun next _ empty => ?_, ih⟩
    exact absurd empty nonempty

/-- Lines without two empty ones in a row stay as they are, if no empty one is in front where none
may be. -/
theorem collapse_of_isChain {lines : List (List Char)} (filled : lines.IsChain Filled) :
    ∀ blank, (blank = true → ∀ line ∈ lines.head?, line ≠ []) → collapse blank lines = lines := by
  induction lines with
  | nil => exact fun _ _ => rfl
  | cons line lines ih =>
    intro blank front
    obtain ⟨next, others⟩ := List.isChain_cons.1 filled
    cases line with
    | nil =>
      have open_ : blank = false := by
        rw [Bool.eq_false_iff]
        exact fun above => front above [] rfl rfl
      rw [open_, collapse, if_neg Bool.false_ne_true,
        ih others true fun _ line begins => next line begins rfl]
    | cons c cs =>
      rw [collapse, ih others false nofun]
      exact List.cons_ne_nil c cs

namespace CommentGroup

variable {group : CommentGroup}

theorem isChain_lines (group : CommentGroup) : group.lines.IsChain Filled := by
  rw [lines_eq]
  apply List.IsChain.prefix (isChain_collapse true _)
  exact List.rdropWhile_prefix List.isEmpty _

/-- The lines of a group are in normal form. -/
theorem tidy_lines (oneLined : group.OneLined) : Tidy group.lines := by
  have solid : ∀ line ∈ group.lines, ∀ c ∈ line.getLast?, isBlank c = false :=
    fun line => solid_of_mem_lines
  refine ⟨fun line => clear_of_mem_lines oneLined, solid, fun line begins => ?_,
    fun line ends => ?_, (isChain_filled_iff solid).1 (isChain_lines group)⟩
  · rw [isBlankLine_iff (solid line (List.mem_of_mem_head? begins))]
    exact head?_lines begins
  · rw [isBlankLine_iff (solid line (List.mem_of_mem_getLast? ends))]
    exact getLast?_lines ends

/-! ### Line comments for lines -/

/-- The group of one line comment for each line. -/
def ofLines (span : Span) (lines : List (List Char)) : CommentGroup :=
  ⟨span, lines.map fun line => String.ofList ('/' :: '/' :: ' ' :: line)⟩

theorem flatMap_commentLines_ofLines (span : Span) (lines : List (List Char)) :
    ((ofLines span lines).comments.flatMap fun c => commentLines c.toList) = lines := by
  have one : ∀ line, commentLines ('/' :: '/' :: ' ' :: line) = [line] := fun _ => rfl
  simp [ofLines, List.flatMap_map, one]

/-- Lines in normal form are read back from line comments. -/
theorem lines_ofLines (span : Span) {lines : List (List Char)} (tidy : Tidy lines) :
    (ofLines span lines).lines = lines := by
  have trimmed : lines.map trimEnd = lines := by
    refine (List.map_congr_left fun line member => ?_).trans (List.map_id lines)
    have kept : trimEnd (line ++ []) = line :=
      Text.trimEnd_append (by simp) (tidy.solid line member)
    rwa [List.append_nil] at kept
  have filled : lines.IsChain Filled := (isChain_filled_iff tidy.solid).2 tidy.apart
  have front : ∀ line ∈ lines.head?, line ≠ [] := by
    rintro line begins rfl
    exact tidy.first [] begins nofun
  have back : lines.rdropWhile List.isEmpty = lines := by
    rw [List.rdropWhile_eq_self_iff]
    intro nonempty empty
    have ends := List.getLast?_eq_getLast_of_ne_nil nonempty
    rw [List.isEmpty_iff.1 empty] at ends
    exact tidy.last [] ends nofun
  rw [lines_eq, flatMap_commentLines_ofLines, trimmed,
    collapse_of_isChain filled true fun _ => front, back]

/-- The text of a group is made of lines in normal form, each ended by a newline, and a line comment
for each of them makes a group with the same text. -/
theorem text_normal (oneLined : group.OneLined) :
    let lines := linesOf group.text.toList
    group.text.toList = lines.flatMap (· ++ ['\n']) ∧ Tidy lines ∧
      ∀ span, (ofLines span lines).text = group.text := by
  intro lines
  have same : lines = group.lines := linesOf_text oneLined
  have tidy : Tidy lines := same ▸ tidy_lines oneLined
  refine ⟨?_, tidy, fun span => ?_⟩
  · rw [same]
    exact toList_text group
  · apply String.toList_inj.1
    rw [toList_text, lines_ofLines span tidy, same, toList_text]

/-- Comments of all styles with blanks at the ends of lines and several empty lines in a row. -/
theorem text_normal_mixed :
    let group : CommentGroup := ⟨⟨0, 0⟩, ["//", "//  Get reads. \t", "//go:noinline", "//",
      "/*\n \n", "/* Done.\n\n\t*/", "//   "]⟩
    group.OneLined ∧ group.text = " Get reads.\n\n/*\n\n Done.\n" ∧
      Tidy (linesOf group.text.toList) ∧
      ∀ span, (ofLines span (linesOf group.text.toList)).text = group.text := by
  intro group
  have oneLined : group.OneLined := by simp [OneLined, group]
  exact ⟨oneLined, by decide, (text_normal oneLined).2⟩

end CommentGroup
end Marginalia.Go
