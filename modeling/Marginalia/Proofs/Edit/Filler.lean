/-
Module: Marginalia.Proofs.Edit.Filler
Purpose: What stands between the specs of an import block, and where a new line for a spec begins
  there.
Main exports:
  Filler, Filler.split, currentLine, Settled, Settled.append_spec, lineStart?_cut,
  specLineStart?_cut
-/
import Marginalia.Edit.Insertion
import Marginalia.Proofs.Go.Span
import Marginalia.Proofs.Text.Chars
import Mathlib.Data.List.DropRight

namespace Marginalia.Edit

open Text (isBlank splitOn joinWith trimStart)

/-- What may stand between the specs of an import block: blanks, semicolons and line comments. -/
inductive Filler : List Char → Prop where
  | nil : Filler []
  | loose {c : Char} {cs : List Char} (loose : isBlank c = true ∨ c = ';') (rest : Filler cs) :
    Filler (c :: cs)
  | comment {text cs : List Char} (clear : '\n' ∉ text) (rest : Filler cs) :
    Filler ('/' :: '/' :: (text ++ '\n' :: cs))

namespace Filler

variable {x y : List Char}

theorem append (front : Filler x) (back : Filler y) : Filler (x ++ y) := by
  induction front with
  | nil => exact back
  | loose loose _ ih => exact .loose loose ih
  | comment clear _ ih =>
    simp only [List.cons_append, List.append_assoc]
    exact .comment clear ih

/-- A filler may be cut behind each of its newlines. -/
theorem split (whole : Filler (x ++ '\n' :: y)) : Filler (x ++ ['\n']) ∧ Filler y := by
  generalize same : x ++ '\n' :: y = cs at whole
  induction whole generalizing x with
  | nil => simp at same
  | @loose c cs loose rest ih =>
    cases x with
    | nil =>
      obtain ⟨rfl, rfl⟩ := List.cons.inj same
      exact ⟨.loose loose .nil, rest⟩
    | cons d x =>
      obtain ⟨rfl, rest'⟩ := List.cons.inj same
      exact (ih rest').imp_left (.loose loose)
  | @comment text cs clear rest ih =>
    -- the newline is the one at the end of the comment or a later one
    have clear' : '\n' ∉ '/' :: '/' :: text := by simpa using clear
    rw [← List.cons_append, ← List.cons_append] at same
    rcases List.append_eq_append_iff.1 same with ⟨middle, whole, rest'⟩ | ⟨middle, rfl, rest'⟩
    · cases middle with
      | nil =>
        rw [List.append_nil] at whole
        obtain ⟨-, rfl⟩ := List.cons.inj rest'
        rw [← whole]
        exact ⟨.comment clear .nil, rest⟩
      | cons c middle =>
        obtain ⟨rfl, -⟩ := List.cons.inj rest'
        exact absurd (whole ▸ List.mem_append_right x List.mem_cons_self) clear'
    · cases middle with
      | nil =>
        obtain ⟨-, rfl⟩ := List.cons.inj rest'
        rw [List.append_nil]
        exact ⟨.comment clear .nil, rest⟩
      | cons c middle =>
        obtain ⟨rfl, later⟩ := List.cons.inj rest'
        obtain ⟨front, back⟩ := ih later.symm
        simp only [List.cons_append, List.append_assoc]
        exact ⟨.comment clear front, back⟩

/-- A filler without newline holds blanks and semicolons only. -/
theorem loose_of_clear (whole : Filler x) (clear : '\n' ∉ x) :
    ∀ c ∈ x, isBlank c = true ∨ c = ';' := by
  induction whole with
  | nil => simp
  | loose loose _ ih =>
    rw [List.mem_cons, not_or] at clear
    exact List.forall_mem_cons.2 ⟨loose, ih clear.2⟩
  | comment => simp at clear

end Filler

/-! ### The line that a text ends in -/

/-- The last line of a text, as far as it goes. -/
def currentLine (text : List Char) : List Char :=
  (splitOn '\n' text).getLast?.getD []

theorem splitOn_eq_concat (text : List Char) :
    ∃ init, splitOn '\n' text = init ++ [currentLine text] := by
  refine ⟨(splitOn '\n' text).dropLast, ?_⟩
  rw [currentLine, List.getLast?_eq_getLast_of_ne_nil (Text.splitOn_ne_nil _ _), Option.getD_some,
    List.dropLast_append_getLast]

theorem currentLine_append {x y : List Char} (clear : '\n' ∉ y) :
    currentLine (x ++ y) = currentLine x ++ y := by
  obtain ⟨init, front⟩ := splitOn_eq_concat x
  rw [currentLine, Text.splitOn_append_pieces front (Text.splitOn_of_not_mem clear)]
  simp

theorem currentLine_append_newline {x y : List Char} (clear : '\n' ∉ y) :
    currentLine (x ++ '\n' :: y) = y := by
  rw [currentLine, Text.splitOn_append_sep, Text.splitOn_of_not_mem clear]
  simp

/-- The line that a text ends in is no comment line, whatever follows. -/
def Settled (text : List Char) : Prop :=
  ∀ more, isCommentLine (currentLine text ++ more) = false

/-- A line is settled by a first character other than a slash. -/
theorem isCommentLine_append_of_head {line cs : List Char} {c : Char}
    (head : trimStart line = c :: cs) (differ : c ≠ '/') (more : List Char) :
    isCommentLine (line ++ more) = false := by
  have kept : trimStart (line ++ more) = c :: (cs ++ more) := by
    rw [trimStart, List.dropWhile_append, ← trimStart, head]
    rfl
  rw [isCommentLine, kept, Text.after?, if_neg (Ne.symm differ)]
  rfl

theorem trimStart_append_paren (line more : List Char) :
    trimStart (line ++ '(' :: more) = trimStart line ++ '(' :: more := by
  rw [trimStart, List.dropWhile_append, trimStart]
  split
  · rename_i empty
    rw [List.isEmpty_iff.1 empty]
    rfl
  · rfl

/-- Nothing behind a parenthesis makes a line a comment line. -/
theorem isCommentLine_append_paren (line more : List Char) :
    isCommentLine (line ++ '(' :: more) = isCommentLine (line ++ ['(']) := by
  rw [isCommentLine, isCommentLine, trimStart_append_paren, trimStart_append_paren]
  rcases trimStart line with _ | ⟨c, _ | ⟨d, rest⟩⟩
  · rfl
  · simp [Text.after?]
  · simp only [List.cons_append, Text.after?]
    split_ifs <;> rfl

/-- A line that ends with a parenthesis and is no comment line is settled. -/
theorem settled_of_paren {before : List Char}
    (plain : isCommentLine (currentLine (before ++ ['('])) = false) :
    Settled (before ++ ['(']) := by
  intro more
  rw [currentLine_append (by decide)] at plain ⊢
  rw [List.append_assoc, List.singleton_append, isCommentLine_append_paren, plain]

/-- Behind blanks and semicolons a spec does not make a comment line. -/
theorem exists_head {line spec rest : List Char} {c : Char}
    (loose : ∀ d ∈ line, isBlank d = true ∨ d = ';') (begins : spec = c :: rest)
    (solid : isBlank c = false) (plain : c ≠ '/') :
    ∃ d ds, trimStart (line ++ spec) = d :: ds ∧ d ≠ '/' := by
  induction line with
  | nil =>
    refine ⟨c, rest, ?_, plain⟩
    rw [List.nil_append, begins, trimStart, List.dropWhile_cons_of_neg (by simp [solid])]
  | cons d line ih =>
    obtain ⟨first, others⟩ := List.forall_mem_cons.1 loose
    by_cases blank : isBlank d = true
    · obtain ⟨e, es, trimmed, differ⟩ := ih others
      refine ⟨e, es, ?_, differ⟩
      rw [List.cons_append, trimStart, List.dropWhile_cons_of_pos blank]
      exact trimmed
    · obtain rfl := first.resolve_left blank
      refine ⟨';', line ++ spec, ?_, by decide⟩
      rw [List.cons_append, trimStart, List.dropWhile_cons_of_neg blank]

/-- The text behind a spec on one line is settled: the line begins before the filler in front of the
spec, or with semicolons or the spec itself. -/
theorem Settled.append_spec {text gap spec rest : List Char} {c : Char} (settled : Settled text)
    (filler : Filler gap) (begins : spec = c :: rest) (solid : isBlank c = false) (plain : c ≠ '/')
    (clear : '\n' ∉ spec) : Settled (text ++ (gap ++ spec)) := by
  obtain ⟨last, -, last_clear, whole⟩ := Text.splitOn_getLast? '\n' gap
  have line_clear : '\n' ∉ last ++ spec := by
    rw [List.mem_append, not_or]
    exact ⟨last_clear, clear⟩
  intro more
  rcases whole with rfl | ⟨front, rfl⟩
  · rw [currentLine_append line_clear, List.append_assoc]
    exact settled _
  · have loose := filler.split.2.loose_of_clear last_clear
    obtain ⟨d, ds, trimmed, differ⟩ := exists_head loose begins solid plain
    have current : currentLine (text ++ ((front ++ '\n' :: last) ++ spec)) = last ++ spec := by
      rw [List.append_assoc, ← List.append_assoc, List.cons_append]
      exact currentLine_append_newline line_clear
    rw [current]
    exact isCommentLine_append_of_head trimmed differ more

/-! ### Where lines begin -/

theorem linesUpTo_eq {source text rest : List Char} (whole : source = text ++ rest) :
    linesUpTo source (Utf8.size text) = (splitOn '\n' text).reverse := by
  have cut : Go.splitAtByte? (Utf8.size text) source = some (text, rest) :=
    Go.splitAtByte?_eq_some_iff.2 ⟨whole, rfl⟩
  rw [linesUpTo, textBefore, cut]
  rfl

theorem not_all_blank {line : List Char}
    (settled : ∀ more, isCommentLine (line ++ more) = false) : line.all isBlank = false := by
  by_contra blank
  have dropped : line.dropWhile isBlank = [] := by
    rw [List.dropWhile_eq_nil_iff]
    simpa using blank
  have comment := settled ['/', '/']
  rw [isCommentLine, trimStart, List.dropWhile_append, dropped] at comment
  simp [Text.after?, isBlank] at comment

theorem joinWith_concat (lines : List (List Char)) (last : List Char) :
    joinWith ['\n'] (lines ++ [last]) = lines.flatMap (· ++ ['\n']) ++ last := by
  induction lines with
  | nil => rfl
  | cons line lines ih =>
    rw [List.cons_append, Text.joinWith_cons (by simp), ih]
    simp

theorem size_flatMap_reverse (lines : List (List Char)) :
    Utf8.size (lines.reverse.flatMap (· ++ ['\n'])) = Utf8.size (lines.flatMap (· ++ ['\n'])) := by
  induction lines with
  | nil => rfl
  | cons line lines ih =>
    rw [List.reverse_cons, List.flatMap_append, Utf8.size_append, ih]
    simp only [List.flatMap_cons, List.flatMap_nil, Utf8.size_append, Utf8.size_nil]
    omega

/-- The lines of a text from the second or a later one on stand behind a newline. -/
theorem exists_cut {text first last : List Char} {above below : List (List Char)}
    (lines : splitOn '\n' text = first :: (above ++ (below ++ [last]))) :
    ∃ lower, text = lower ++ '\n' :: (below.flatMap (· ++ ['\n']) ++ last) := by
  rw [← Text.joinWith_splitOn '\n' text, lines, ← joinWith_concat]
  clear lines
  induction above generalizing first with
  | nil => exact ⟨first, by simp [Text.joinWith_cons]⟩
  | cons second above ih =>
    obtain ⟨lower, joined⟩ := @ih second
    refine ⟨first ++ '\n' :: lower, ?_⟩
    rw [Text.joinWith_cons (by simp), List.cons_append, joined]
    simp

section Gap

variable {source text gap rest : List Char} (settled : Settled text)
  (whole : source = text ++ (gap ++ rest))

include settled whole

/-- If only blanks precede a place at the end of a gap, its line begins in the gap, and the lines
above it, up to the settled one, do. -/
theorem exists_lines {start : Nat}
    (found : lineStart? source (Utf8.size (text ++ gap)) = some start) :
    ∃ first above current top, splitOn '\n' gap = first :: (above ++ [current]) ∧
      start = Utf8.size (text ++ gap) - Utf8.size current ∧
      linesUpTo source (Utf8.size (text ++ gap)) =
        current :: (above.reverse ++ (currentLine text ++ first) :: top) := by
  obtain ⟨init, front⟩ := splitOn_eq_concat text
  obtain ⟨first, others, back⟩ := List.exists_cons_of_ne_nil (Text.splitOn_ne_nil '\n' gap)
  have lines : linesUpTo source (Utf8.size (text ++ gap)) =
      others.reverse ++ (currentLine text ++ first) :: init.reverse := by
    rw [linesUpTo_eq (by rw [whole, List.append_assoc]), Text.splitOn_append_pieces front back]
    simp
  rw [lineStart?, lines] at found
  rcases others.eq_nil_or_concat with rfl | ⟨above, current, rfl⟩
  · -- the line of the place began before the gap, where it is not blank
    have solid : (currentLine text ++ first).all isBlank = false :=
      not_all_blank fun more => by rw [List.append_assoc]; exact settled _
    simp only [List.reverse_nil, List.nil_append, solid] at found
    cases found
  · rw [List.concat_eq_append] at back lines found
    rw [List.reverse_append, List.reverse_singleton, List.singleton_append] at found
    refine ⟨first, above, current, init.reverse, back, ?_, ?_⟩
    · simp only [List.cons_append] at found
      split at found
      · exact (Option.some.inj found).symm
      · cases found
    · rw [lines]
      simp

/-- The start of a line of a gap is right behind a newline of the gap. -/
theorem lineStart?_cut {start : Nat}
    (found : lineStart? source (Utf8.size (text ++ gap)) = some start) :
    ∃ lower upper, gap = lower ++ '\n' :: upper ∧
      start = Utf8.size text + Utf8.size (lower ++ ['\n']) := by
  obtain ⟨first, above, current, top, pieces, rfl, -⟩ := exists_lines settled whole found
  obtain ⟨lower, rfl⟩ := @exists_cut gap first current above [] pieces
  refine ⟨lower, _, rfl, ?_⟩
  simp only [List.flatMap_nil, List.nil_append, Utf8.size_append, Utf8.size_cons, Utf8.size_nil]
  omega

/-- So is the start of the comment lines above it. -/
theorem specLineStart?_cut {start : Nat}
    (found : specLineStart? source (Utf8.size (text ++ gap)) = some start) :
    ∃ lower upper, gap = lower ++ '\n' :: upper ∧
      start = Utf8.size text + Utf8.size (lower ++ ['\n']) := by
  obtain ⟨place, begins, rfl⟩ := Option.map_eq_some_iff.1 found
  obtain ⟨first, above, current, top, pieces, rfl, lines⟩ := exists_lines settled whole begins
  -- the settled line stops the climb, so the comment lines are the last ones of `above`
  have plain : isCommentLine (currentLine text ++ first) = false := settled first
  have climbed : commentBytes ((linesUpTo source (Utf8.size (text ++ gap))).drop 1) =
      Utf8.size ((above.rtakeWhile isCommentLine).flatMap (· ++ ['\n'])) := by
    rw [lines, List.drop_one, List.tail_cons, commentBytes, List.takeWhile_append, List.rtakeWhile,
      size_flatMap_reverse]
    split
    · rename_i all
      rw [List.takeWhile_cons_of_neg (by simp [plain]), List.append_nil,
        (List.takeWhile_prefix _).eq_of_length all]
    · rfl
  obtain ⟨upper, split⟩ := List.rtakeWhile_suffix isCommentLine above
  rw [← split, List.append_assoc] at pieces
  obtain ⟨lower, cut⟩ := exists_cut pieces
  refine ⟨lower, _, cut, ?_⟩
  rw [climbed, cut]
  simp only [Utf8.size_append, Utf8.size_cons, Utf8.size_nil]
  omega

end Gap

end Marginalia.Edit
