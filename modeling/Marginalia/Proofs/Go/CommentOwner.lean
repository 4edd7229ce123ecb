/-
Module: Marginalia.Proofs.Go.CommentOwner
Purpose: Which comments between two nodes belong to the first, which to the second, and which to
  both.
Main exports:
  Adjoins, append_singleton_prefix_iff, behind, above, Shared, apart_iff_not_shared
-/
import Marginalia.Go.Build
import Mathlib.Data.List.Chain
import Mathlib.Data.List.TakeWhile
import Mathlib.Tactic

namespace Marginalia.Go

/-- No line is free between where one node stops and where another starts. -/
def Adjoins (x y : Tree) : Prop :=
  y.start.row ≤ x.stop.row + 1

instance (x y : Tree) : Decidable (Adjoins x y) :=
  inferInstanceAs (Decidable (_ ≤ _))

/-! ### Above a node -/

/-- The search for comments above a node takes a comment if it adjoins what was reached and does not
share its line with what stands before it. -/
theorem commentsAbove_cons (t c : Tree) (before : List Tree) :
    commentsAbove t.start.row (c :: before) =
      if c.isComment = true ∧ Adjoins c t ∧ sharesLine c before = false then
        c :: commentsAbove c.start.row before
      else [] := by
  rw [commentsAbove]
  unfold Adjoins
  by_cases comment : c.isComment = true
  · by_cases near : t.start.row ≤ c.stop.row + 1
    · cases sharesLine c before <;> simp [comment, near]
    · simp [near]
  · simp [comment]

theorem commentsAbove_prefix {a : Tree} (plain : a.isComment = false) (row : Nat)
    (before front : List Tree) : commentsAbove row (before ++ a :: front) <+: before := by
  induction before generalizing row with
  | nil => simp [commentsAbove, plain]
  | cons c before ih =>
    rw [List.cons_append, commentsAbove]
    split
    · exact List.nil_prefix
    · exact List.prefix_cons_iff.2 (.inr ⟨_, rfl, ih c.start.row⟩)

/-- The search reaches a place exactly when it passes comments only, each of which adjoins the one
reached before, and the last does not share its line with what stands before it. -/
theorem append_singleton_prefix_iff (t : Tree) (passed : List Tree) (c : Tree)
    (before : List Tree) :
    passed ++ [c] <+: commentsAbove t.start.row (passed ++ c :: before) ↔
      (∀ d ∈ passed ++ [c], d.isComment = true) ∧
        (t :: (passed ++ [c])).IsChain (fun x y => Adjoins y x) ∧ sharesLine c before = false := by
  induction passed generalizing t with
  | nil =>
    rw [List.nil_append, List.nil_append, commentsAbove_cons]
    split
    · rename_i taken
      simp [taken]
    · rename_i left
      simpa [and_assoc] using left
  | cons d passed ih =>
    rw [List.cons_append, List.cons_append, commentsAbove_cons, List.forall_mem_cons,
      List.isChain_cons_cons]
    split
    · rename_i taken
      obtain ⟨comment, near, -⟩ := taken
      rw [List.cons_prefix_cons, ih]
      simp [comment, near]
    · rename_i left
      refine ⟨fun absurd => by simp at absurd, ?_⟩
      rintro ⟨⟨comment, others⟩, ⟨near, -⟩, -⟩
      -- a comment never shares its line with a comment before it
      refine absurd ⟨comment, near, ?_⟩ left
      cases passed with
      | nil => simp [sharesLine, others c (by simp)]
      | cons e passed => simp [sharesLine, others e (by simp)]

/-! ### Between two nodes -/

section Siblings

variable (front : List Tree) (a : Tree) (between : List Tree) (b : Tree) (back : List Tree)

/-- The comments behind the first of two siblings. -/
def behind : List Tree :=
  trailingComments a (between ++ b :: back)

/-- The comments above the second of two siblings. -/
def above : List Tree :=
  leadingComments (between.reverse ++ a :: front.reverse) b

/-- Of the comments behind the first node there are two at least, and from the last of these on
comments without a free line between them lead down to the second. -/
def Shared : Prop :=
  ∃ init last rest, behind a between b back = init ++ [last] ∧ init ≠ [] ∧
    between = init ++ last :: rest ∧ (∀ c ∈ rest, c.isComment = true) ∧
    (last :: (rest ++ [b])).IsChain Adjoins

variable {front a between b back}

theorem behind_prefix (plain : b.isComment = false) : behind a between b back <+: between := by
  rw [behind, trailingComments, List.takeWhile_append]
  split
  · simp [plain]
  · exact List.takeWhile_prefix _

theorem above_suffix (plain : a.isComment = false) : above front a between b <:+ between := by
  rw [above, leadingComments, ← List.reverse_prefix, List.reverse_reverse]
  exact commentsAbove_prefix plain _ _ _

theorem mem_behind {c : Tree} (member : c ∈ behind a between b back) :
    c.isComment = true ∧ c.start.row = a.stop.row := by
  simpa using List.mem_takeWhile_imp member

/-- A start and an end of a list are apart when the end fits into what the start leaves. -/
theorem exists_middle_iff {whole start rest stop : List Tree} (begins : start ++ rest = whole)
    (ends : stop <:+ whole) :
    (∃ middle, whole = start ++ middle ++ stop) ↔ stop.length ≤ rest.length := by
  constructor
  · rintro ⟨middle, split⟩
    have lengths := congrArg List.length (begins.trans split)
    simp only [List.length_append] at lengths
    omega
  · intro short
    obtain ⟨middle, tail⟩ := List.suffix_of_suffix_length_le ends ⟨start, begins⟩ short
    exact ⟨middle, by rw [List.append_assoc, tail, begins]⟩

section LastBehind

variable {init rest : List Tree} {last : Tree} (plain : a.isComment = false)
  (owned : behind a between b back = init ++ [last])

include plain owned

/-- The last comment behind a node shares its line with what stands before it exactly when that is
the node itself. -/
theorem sharesLine_last_iff (others : List Tree) :
    sharesLine last (init.reverse ++ a :: others) = false ↔ init ≠ [] := by
  rcases init.eq_nil_or_concat with rfl | ⟨init, previous, rfl⟩
  · have member : last ∈ behind a between b back := by
      rw [owned]
      exact List.mem_singleton_self last
    simp [sharesLine, plain, (mem_behind member).2]
  · have member : previous ∈ behind a between b back := by
      rw [owned]
      simp
    simp [sharesLine, (mem_behind member).1]

/-- The search above the second node reaches the last comment behind the first exactly when there is
a comment before that one, and only comments without a free line between them follow it. -/
theorem length_lt_above_iff (split : between = init ++ last :: rest) :
    rest.length < (above front a between b).length ↔
      init ≠ [] ∧ (∀ c ∈ rest, c.isComment = true) ∧ (last :: (rest ++ [b])).IsChain Adjoins := by
  have member : last ∈ behind a between b back := by
    rw [owned]
    simp
  have comments : (∀ d ∈ rest.reverse ++ [last], d.isComment = true) ↔
      ∀ c ∈ rest, c.isComment = true := by
    simp [or_imp, forall_and, (mem_behind member).1]
  have before : between.reverse ++ a :: front.reverse =
      rest.reverse ++ last :: (init.reverse ++ a :: front.reverse) := by
    simp [split]
  have place : rest.reverse ++ [last] <+: between.reverse := ⟨init.reverse, by simp [split]⟩
  have searched := commentsAbove_prefix plain b.start.row between.reverse front.reverse
  have reached : rest.length < (above front a between b).length ↔
      rest.reverse ++ [last] <+:
        commentsAbove b.start.row (between.reverse ++ a :: front.reverse) := by
    rw [above, leadingComments, List.length_reverse]
    constructor
    · intro less
      exact List.prefix_of_prefix_length_le place searched (by simpa using less)
    · intro within
      simpa using within.length_le
  have chain : (b :: (rest.reverse ++ [last])).IsChain (fun x y => Adjoins y x) ↔
      (last :: (rest ++ [b])).IsChain Adjoins := by
    rw [← List.isChain_reverse]
    simp
  rw [reached, before, append_singleton_prefix_iff, comments, chain,
    sharesLine_last_iff plain owned]
  tauto

end LastBehind

/-- Comments behind a node and comments above a later one are different comments, unless two or more
stand behind the first and comments without a free line lead from there down to the second: then
the last comment behind the first is above the second as well. -/
theorem apart_iff_not_shared (plain : a.isComment = false) (plain' : b.isComment = false) :
    (∃ middle, between = behind a between b back ++ middle ++ above front a between b) ↔
      ¬Shared a between b back := by
  have stop : above front a between b <:+ between := above_suffix plain
  obtain ⟨rest, whole⟩ : behind a between b back <+: between := behind_prefix plain'
  rw [exists_middle_iff whole stop, ← Nat.not_lt, not_iff_not]
  rcases (behind a between b back).eq_nil_or_concat with unowned | ⟨init, last, owned⟩
  · rw [unowned, List.nil_append] at whole
    constructor
    · intro long
      have short := stop.length_le
      rw [whole] at long
      omega
    · rintro ⟨init, last, -, owned, -⟩
      simp [unowned] at owned
  · rw [List.concat_eq_append] at owned
    have split : between = init ++ last :: rest := by
      rw [← whole, owned]
      simp
    rw [length_lt_above_iff plain owned split]
    constructor
    · rintro ⟨nonempty, comments, chain⟩
      exact ⟨init, last, rest, owned, nonempty, split, comments, chain⟩
    · rintro ⟨init', last', rest', owned', nonempty, split', comments, chain⟩
      obtain ⟨rfl, same⟩ := List.append_inj' (owned.symm.trans owned') rfl
      obtain rfl := List.singleton_inj.1 same
      obtain rfl : rest = rest' := by simpa using split.symm.trans split'
      exact ⟨nonempty, comments, chain⟩

end Siblings

/-- Two comments behind a field and another field on the next line: the second comment belongs to
both fields, though the nodes are in the order of their rows. -/
theorem shared_two_comments :
    let field (row : Nat) : Tree :=
      .node .fieldDeclaration none ⟨10 * row, row⟩ ⟨10 * row + 5, row⟩ []
    let block : Tree := .node .comment none ⟨6, 0⟩ ⟨7, 0⟩ []
    let line : Tree := .node .comment none ⟨8, 0⟩ ⟨9, 0⟩ []
    (field 0).isComment = false ∧ (field 1).isComment = false ∧
    ([field 0, block, line, field 1].Pairwise fun x y =>
      x.start.row ≤ y.start.row ∧ x.stop.row ≤ y.stop.row) ∧
    behind (field 0) [block, line] (field 1) [] = [block, line] ∧
    above [] (field 0) [block, line] (field 1) = [line] ∧
    ¬∃ middle, [block, line] = behind (field 0) [block, line] (field 1) [] ++ middle ++
      above [] (field 0) [block, line] (field 1) := by
  intro field block line
  have shared : Shared (field 0) [block, line] (field 1) [] := by
    refine ⟨[block], line, [], rfl, by simp, rfl, by simp, ?_⟩
    simp [Adjoins, field, line, Node.start, Node.stop]
  refine ⟨rfl, rfl, by decide, rfl, rfl, ?_⟩
  rw [apart_iff_not_shared rfl rfl]
  exact not_not.2 shared

/-- The names, the comments above and the comments behind the fields of a declared struct. -/
def fieldComments (unit : SourceUnit) (name : String) :
    List (List String × List String × List String) :=
  match unit.lookup name with
  | some (.type spec) =>
    match spec.type.kind with
    | .struct fields =>
      fields.map fun f => (f.names, (f.doc.map (·.comments)).getD [],
        (f.comment.map (·.comments)).getD [])
    | _ => []
  | _ => []

/-- Of two comments behind one field the second is read once more, above the next field. -/
theorem comment_read_twice :
    let source := "package a\ntype T struct \x7b\n\tA int /* one */ // two\n\tB int\n\x7d\n"
    (SourceUnit.parse "a.go" source).toOption.map (fieldComments · "T") =
      some [(["A"], [], ["/* one */", "// two"]), (["B"], ["// two"], [])] := by
  decide +kernel

end Marginalia.Go
