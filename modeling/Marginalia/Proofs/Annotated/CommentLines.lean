/-
Module: Marginalia.Proofs.Annotated.CommentLines
Purpose: Which lines of comments become annotations and which documentation: every annotation that
  is written is found, and every line of a text goes to one side.
Main exports:
  writtenLines, annotationOf?_commentLines, annotations_eq_written, Accounted, lines_accounted
-/
import Marginalia.Annotated.Decl
import Marginalia.Proofs.Go.CommentText

namespace Marginalia

open Go (CommentGroup commentLines isDirective linesOf)
open Text (isBlank trim trimStart trimEnd)

/-- The lines of a comment as they are written, without its marks: what follows `//`, the lines
between `/*` and `*/`, or the lines of any other text. -/
def writtenLines (comment : List Char) : List (List Char) :=
  match Text.after? ['/', '/'] comment with
  | some body => [body]
  | none =>
    match (Text.after? ['/', '*'] comment).bind (Text.before? ['*', '/']) with
    | some body => Text.splitOn '\n' body
    | none => Text.splitOn '\n' comment

/-! ### Reading one line -/

theorem annotationOf?_trimEnd (marker line : List Char) :
    annotationOf? marker (trimEnd line) = annotationOf? marker line := by
  rw [annotationOf?, annotationOf?, Text.trim_trimEnd]

theorem annotationOf?_trimStart (marker line : List Char) :
    annotationOf? marker (trimStart line) = annotationOf? marker line := by
  rw [annotationOf?, annotationOf?, Text.trim_trimStart]

theorem annotationOf?_nil (lead : Char) (others : List Char) :
    annotationOf? (lead :: others) [] = none := rfl

/-- A directive begins with a lower-case letter or a digit. -/
theorem head_of_isDirective {body : List Char} (directive : isDirective body = true) :
    ∃ c rest, body = c :: rest ∧ (c.isLower = true ∨ c.isDigit = true) := by
  unfold isDirective at directive
  rw [Bool.or_eq_true] at directive
  rcases directive with word | named
  · have begins : ∀ c lead, (Text.after? (c :: lead) body).isSome = true →
        ∃ rest, body = c :: rest := by
      intro c lead found
      obtain ⟨rest, after⟩ := Option.isSome_iff_exists.1 found
      exact ⟨lead ++ rest, Text.after?_eq_some_iff.1 after⟩
    simp only [List.any_cons, List.any_nil, Bool.or_false, Bool.or_eq_true] at word
    rcases word with line | extern_ | export_
    · obtain ⟨rest, whole⟩ := begins 'l' _ line
      exact ⟨'l', rest, whole, .inl rfl⟩
    · obtain ⟨rest, whole⟩ := begins 'e' _ extern_
      exact ⟨'e', rest, whole, .inl rfl⟩
    · obtain ⟨rest, whole⟩ := begins 'e' _ export_
      exact ⟨'e', rest, whole, .inl rfl⟩
  · split at named
    · rename_i head rest cut
      obtain ⟨whole, -⟩ := Text.cut?_eq_some_iff.1 cut
      cases head with
      | nil => simp at named
      | cons c head =>
        refine ⟨c, head ++ ':' :: rest, whole, ?_⟩
        simp only [List.all_cons, Bool.and_eq_true, Bool.or_eq_true] at named
        exact named.1.2.1
    · cases named

theorem isBlank_of_isLower_or_isDigit {c : Char} (word : c.isLower = true ∨ c.isDigit = true) :
    isBlank c = false := by
  have lower : c.isLower = (decide (c.val ≥ 97) && decide (c.val ≤ 122)) := rfl
  have range : (97 ≤ c.toNat ∧ c.toNat ≤ 122) ∨ (48 ≤ c.toNat ∧ c.toNat ≤ 57) := by
    simpa [lower, Char.isDigit, UInt32.le_iff_toNat_le] using word
  simp only [isBlank, Bool.or_eq_false_iff, Bool.and_eq_false_iff, decide_eq_false_iff_not,
    beq_eq_false_iff_ne]
  omega

section Marker

variable {lead : Char} {others : List Char} (notLower : lead.isLower = false)
  (notDigit : lead.isDigit = false)

include notLower notDigit

/-- A directive is no annotation. -/
theorem annotationOf?_of_isDirective {body : List Char} (directive : isDirective body = true) :
    annotationOf? (lead :: others) body = none := by
  obtain ⟨c, rest, rfl, word⟩ := head_of_isDirective directive
  have differ : lead ≠ c := by
    rintro rfl
    simp [notLower, notDigit] at word
  rw [annotationOf?, Text.trim_cons_of_solid (isBlank_of_isLower_or_isDigit word), Text.after?,
    if_neg differ]

/-- The annotations in the lines that a comment contributes are those in its lines as written. -/
theorem filterMap_commentLines (comment : List Char) :
    (commentLines comment).filterMap (annotationOf? (lead :: others)) =
      (writtenLines comment).filterMap (annotationOf? (lead :: others)) := by
  unfold commentLines writtenLines
  split
  · rename_i after
    rw [after]
  · rename_i body after
    rw [after]
    have blank : isBlank ' ' = true := rfl
    simp only [List.filterMap_cons, List.filterMap_nil, annotationOf?,
      Text.trim_cons_of_blank blank]
  · rename_i body _ _ after
    rw [after]
    split
    · rename_i directive
      simp [annotationOf?_of_isDirective notLower notDigit directive]
    · rfl
  · rename_i after
    cases (Text.after? ['/', '*'] comment).bind (Text.before? ['*', '/']) with
    | none => simp only [after]
    | some body => simp only [after]

end Marker

/-- What is read from the lines of a group's text, but for their outer blanks, is read from the
lines that are left of its comments. -/
theorem filterMap_groupLines {group : CommentGroup} (oneLined : group.OneLined) (lead : Char)
    (others : List Char) :
    (groupLines group).filterMap (annotationOf? (lead :: others)) =
      group.lines.filterMap (annotationOf? (lead :: others)) := by
  rw [groupLines]
  by_cases lineless : group.lines = []
  · rw [CommentGroup.toList_text, lineless]
    rfl
  · rw [CommentGroup.splitOn_trim_text oneLined lineless]
    cases group.lines with
    | nil => rfl
    | cons first rest =>
      simp only [List.modifyHead_cons, List.filterMap_cons, annotationOf?_trimStart]

theorem splitComments_of_ne {marker : String} (nonempty : marker ≠ "")
    (groups : List (Option CommentGroup)) :
    splitComments marker groups =
      ((((groups.filterMap id).flatMap groupLines).filter fun l =>
          (annotationOf? marker.toList l).isNone).map String.ofList,
        (((groups.filterMap id).flatMap groupLines).filterMap
          (annotationOf? marker.toList)).map String.ofList) := by
  rw [splitComments, if_neg (by simpa using nonempty)]

/-- The annotations of comment groups are, in order, what follows the marker in the lines of their
comments that start with it, blanks apart: clearing away directives, empty lines and blanks loses
none, when the marker begins with no lower-case letter and no digit. -/
theorem annotations_eq_written {marker : String} {lead : Char} {others : List Char}
    (begins : marker.toList = lead :: others) (notLower : lead.isLower = false)
    (notDigit : lead.isDigit = false) {groups : List (Option CommentGroup)}
    (oneLined : ∀ g, some g ∈ groups → g.OneLined) :
    (splitComments marker groups).2 =
      (((groups.filterMap id).flatMap fun g => g.comments.flatMap fun c => writtenLines c.toList)
        |>.filterMap fun line => Text.after? marker.toList (trim line)).map String.ofList := by
  have nonempty : marker ≠ "" := by
    rintro rfl
    cases begins
  have each : ∀ g ∈ groups.filterMap id, (groupLines g).filterMap (annotationOf? marker.toList) =
      (g.comments.flatMap fun c => writtenLines c.toList).filterMap
        (annotationOf? marker.toList) := by
    intro g member
    have lined : g.OneLined := oneLined g (by simpa using member)
    rw [begins, filterMap_groupLines lined,
      CommentGroup.filterMap_lines (annotationOf?_nil lead others) (annotationOf?_trimEnd _),
      List.filterMap_flatMap, List.filterMap_flatMap]
    simp only [filterMap_commentLines notLower notDigit]
  have whole : ((groups.filterMap id).flatMap groupLines).filterMap (annotationOf? marker.toList) =
      ((groups.filterMap id).flatMap fun g =>
        g.comments.flatMap fun c => writtenLines c.toList).filterMap
          (annotationOf? marker.toList) := by
    rw [List.filterMap_flatMap, List.filterMap_flatMap]
    exact List.flatMap_congr each
  rw [splitComments_of_ne nonempty]
  exact congrArg (List.map String.ofList) whole

/-- Directives, empty lines and comments of all styles around annotations. -/
theorem annotations_eq_written_mixed :
    (splitComments "+gen:" [some ⟨⟨0, 0⟩, ["//go:generate x", "//+gen:api", "//", "//",
        "/* +gen:get\n\n\t+gen:set */", "// text"]⟩, none,
      some ⟨⟨0, 0⟩, ["//nolint:all", "//  +gen:log \t"]⟩]).2 = ["api", "get", "set", "log"] := by
  have begins : "+gen:".toList = '+' :: ['g', 'e', 'n', ':'] := rfl
  rw [annotations_eq_written begins rfl rfl]
  · decide
  · simp [CommentGroup.OneLined]

/-! ### Every line goes to one side -/

/-- The lines of the groups' texts are split without loss: there are as many as documentation and
annotation lines together, and documentation are those lines that do not start with the marker,
the blanks at the ends of the texts and of the line apart. -/
def Accounted (marker : String) (groups : List (Option CommentGroup)) : Prop :=
  let docs := (splitComments marker groups).1
  let annotations := (splitComments marker groups).2
  docs.length + annotations.length =
      ((groups.filterMap id).flatMap fun g => linesOf g.text.toList).length ∧
    docs = (((groups.filterMap id).flatMap fun g => linesOf (trim g.text.toList)).filter
      fun line => !marker.toList.isPrefixOf (trim line)).map String.ofList

/-- The lines of a text that is not empty are its lines without the blanks at its ends. -/
theorem groupLines_eq {group : CommentGroup} (oneLined : group.OneLined)
    (filled : group.text ≠ "") : groupLines group = linesOf (trim group.text.toList) := by
  rw [groupLines, CommentGroup.linesOf_trim_text oneLined,
    CommentGroup.splitOn_trim_text oneLined (CommentGroup.text_ne_empty_iff.1 filled)]

theorem length_linesOf_trim {group : CommentGroup} (oneLined : group.OneLined) :
    (linesOf (trim group.text.toList)).length = (linesOf group.text.toList).length := by
  rw [CommentGroup.linesOf_trim_text oneLined, CommentGroup.linesOf_text oneLined,
    List.length_modifyHead]

theorem length_filter_add_length_filterMap (marker : List Char) (lines : List (List Char)) :
    (lines.filter fun l => (annotationOf? marker l).isNone).length +
      (lines.filterMap (annotationOf? marker)).length = lines.length := by
  induction lines with
  | nil => rfl
  | cons line lines ih =>
    cases known : annotationOf? marker line with
    | none =>
      simp [known]
      omega
    | some rest =>
      simp [known]
      omega

theorem isNone_annotationOf? (marker line : List Char) :
    (annotationOf? marker line).isNone = !marker.isPrefixOf (trim line) := by
  rw [Bool.eq_iff_iff, Option.isNone_iff_eq_none, Bool.not_eq_true', ← Bool.not_eq_true,
    List.isPrefixOf_iff_prefix, annotationOf?, Option.eq_none_iff_forall_ne_some]
  simp only [ne_eq, Text.after?_eq_some_iff, eq_comm (a := trim line)]
  exact not_exists.symm

/-- Of comment groups with texts that are not empty, every line of a text is either documentation or
an annotation. With an empty marker all of them are documentation. -/
theorem lines_accounted (marker : String) {groups : List (Option CommentGroup)}
    (oneLined : ∀ g, some g ∈ groups → g.OneLined) (filled : ∀ g, some g ∈ groups → g.text ≠ "") :
    (marker ≠ "" → Accounted marker groups) ∧
    (marker = "" →
      let docs := (splitComments marker groups).1
      docs = ((groups.filterMap id).flatMap fun g => linesOf (trim g.text.toList)).map
          String.ofList ∧
        docs.length = ((groups.filterMap id).flatMap fun g => linesOf g.text.toList).length ∧
        (splitComments marker groups).2 = []) := by
  have lines : (groups.filterMap id).flatMap groupLines =
      (groups.filterMap id).flatMap fun g => linesOf (trim g.text.toList) := by
    refine List.flatMap_congr fun g member => ?_
    have listed : some g ∈ groups := by simpa using member
    exact groupLines_eq (oneLined g listed) (filled g listed)
  have total : ((groups.filterMap id).flatMap fun g => linesOf (trim g.text.toList)).length =
      ((groups.filterMap id).flatMap fun g => linesOf g.text.toList).length := by
    have each : ∀ g ∈ groups.filterMap id,
        (linesOf (trim g.text.toList)).length = (linesOf g.text.toList).length :=
      fun g member => length_linesOf_trim (oneLined g (by simpa using member))
    rw [List.length_flatMap, List.length_flatMap, List.map_congr_left each]
  constructor
  · intro nonempty
    have parts := length_filter_add_length_filterMap marker.toList
      ((groups.filterMap id).flatMap fun g => linesOf (trim g.text.toList))
    rw [Accounted, splitComments_of_ne nonempty, lines]
    simp only [List.length_map, isNone_annotationOf?] at parts ⊢
    exact ⟨parts.trans total, trivial⟩
  · rintro rfl
    have all : splitComments "" groups =
        (((groups.filterMap id).flatMap groupLines).map String.ofList, []) := rfl
    rw [all, lines]
    exact ⟨rfl, by rw [List.length_map, total], rfl⟩

/-- An empty line between two others, blanks in front of the first, and an annotation. -/
theorem lines_accounted_mixed :
    let group : CommentGroup := ⟨⟨0, 0⟩, ["//   Get reads.", "//", "// +gen:api", "/* Done.\n*/"]⟩
    group.OneLined ∧ group.text ≠ "" ∧ Accounted "+gen:" [none, some group] ∧
      splitComments "+gen:" [none, some group] = (["Get reads.", "", " Done."], ["api"]) := by
  intro group
  have oneLined : group.OneLined := by simp [CommentGroup.OneLined, group]
  have filled : group.text ≠ "" := by decide
  refine ⟨oneLined, filled, (lines_accounted "+gen:" ?_ ?_).1 (by decide), by decide⟩
  · simpa using oneLined
  · simpa using filled

/-- An empty marker marks nothing, although every line starts with it; and a group of which only a
directive is left out has an empty line of documentation, although its text has no line. -/
theorem not_accounted :
    let plain : CommentGroup := ⟨⟨0, 0⟩, ["// text"]⟩
    let directive : CommentGroup := ⟨⟨0, 0⟩, ["//nolint:all"]⟩
    plain.OneLined ∧ ¬Accounted "" [some plain] ∧
      directive.OneLined ∧ ¬Accounted "+gen:" [some directive] := by
  intro plain directive
  refine ⟨by simp [CommentGroup.OneLined, plain], ?_,
    by simp [CommentGroup.OneLined, directive], ?_⟩
  · unfold Accounted
    decide
  · unfold Accounted
    decide

end Marginalia
