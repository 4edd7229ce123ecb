/-
Module: Marginalia.Proofs.Go.Grammar.Expression
Purpose: The rules for expressions give drafts that stand in order among the lexemes that they take.
Main exports:
  gives_literalRule, tries_attempt, advances_operand, gives_expressionRule, gives_expressionList
-/
import Marginalia.Go.Grammar.Expression
import Marginalia.Proofs.Go.Grammar.Type

namespace Marginalia.Go.Grammar

/-! ### Readers that are tried -/

/-- A reader that may have been tried first, and what it would have left. -/
def Tries {α : Type} (reader : Reading (Option (α × Cursor))) : Prop :=
  ∀ hi, Takes hi
    (fun lo result => lo = hi ∧ ∀ a after, result = some (a, after) → after.length < hi) reader

theorem tries_attempt {α : Type} {reader : Reading α} (advances : Advances reader) :
    Tries (attempt reader) := by
  rintro hi c left result rest ⟨⟩
  exact ⟨left, fun a after found => advances hi c left a after found⟩

theorem tries_none {α : Type} : Tries (pure none : Reading (Option (α × Cursor))) :=
  fun _ => .pure ⟨rfl, nofun⟩

theorem takes_set {α : Type} {hi : Nat} {p : Nat → α → Prop} {after : Cursor}
    {next : PUnit → Reading α} (others : Takes after.length p (next ⟨⟩)) :
    Takes hi p (set after >>= next) :=
  fun _ _ a rest read => others after rfl a rest read

theorem still_atTypeGuard : Still atTypeGuard := by
  refine still_get.bind fun c => ?_
  dsimp only
  split
  · exact .pure _
  · exact .pure _

/-! ### Arguments, literals and operands -/

variable {phrases : Phrases} (gives : ∀ phrase, Gives (phrases phrase))

include gives

theorem advances_arguments : Advances (arguments phrases) := by
  have argument : Fills do
      let e ← phrases (.expression {})
      return e :: (← mark? false .ellipsis) :=
    fun hi => (gives _ hi).bind fun mid _ e => (lists_mark? _ _ mid).bind fun _ _ dots =>
      .pure (.cons e dots)
  exact (fills_enclosed _ _ _ argument.lists).advances

theorem advances_typeFirstArguments : Advances (typeFirstArguments phrases) := by
  refine (gives_mark _).advances.bind fun opening => (still_atMark _ _).shrinks.bind fun here => ?_
  split
  · exact (gives_mark _).shrinks.bind fun _ => .pure _
  · refine (gives _).shrinks.bind fun t => (lists_repeatWhile fun hi =>
      .still (still_atMark _ _) fun here => ?_).shrinks.bind fun others =>
        (gives_mark _).shrinks.bind fun _ => .pure _
    split
    · refine (gives_mark _ hi).bind fun mid _ comma => .still (still_atMark _ _) fun here => ?_
      split
      · exact .pure (.one comma)
      · exact (gives _ mid).bind fun _ _ e => .pure (.cons comma (.one e))
    · exact .pure (.nil le_rfl)

theorem advances_conversionArgument : Advances (conversionArgument phrases) :=
  (gives_mark _).advances.bind fun _ => (gives _).shrinks.bind fun _ =>
    (lists_mark? _ _).shrinks.bind fun _ => (gives_mark _).shrinks.bind fun _ => .pure _

theorem gives_literalElement : Gives (literalElement phrases) := by
  refine fun hi => .still (still_atMark _ _) fun here => ?_
  split <;> exact gives _ hi

theorem gives_literalRule : Gives (literalRule phrases) := by
  refine gives_node (by decide) (fills_enclosed _ _ _ fun hi =>
    (gives_literalElement gives hi).bind fun mid _ first =>
      .still (still_atMark _ _) fun here => ?_)
  split
  · exact (gives_mark _ mid).bind fun next _ colon => (gives_literalElement gives next).bind
      fun _ _ value => .pure (.cons first (.cons colon (.one value)))
  · exact .pure (.one first)

theorem shrinks_optionalExpression (marks : List Mark) :
    Shrinks (optionalExpression phrases marks) := by
  refine (still_peek _).shrinks.bind fun token => ?_
  split
  · split
    · exact .pure _
    · exact (gives _).one.advances.shrinks
  · exact (gives _).one.advances.shrinks

theorem advances_indexOrSlice : Advances (indexOrSlice phrases) := by
  refine (gives_mark _).advances.bind fun opening =>
    (shrinks_optionalExpression gives _).bind fun first =>
      (still_atMark _ _).shrinks.bind fun here => ?_
  split
  · refine (gives_mark _).shrinks.bind fun colon =>
      (shrinks_optionalExpression gives _).bind fun second =>
        (still_atMark _ _).shrinks.bind fun here => ?_
    split
    · exact (gives_mark _).shrinks.bind fun _ => (gives _).shrinks.bind fun _ =>
        (gives_mark _).shrinks.bind fun _ => .pure _
    · exact (gives_mark _).shrinks.bind fun _ => .pure _
  · exact (gives_mark _).shrinks.bind fun _ => .pure _

theorem advances_bracketed (operand : Operand) : Advances (bracketed phrases operand) := by
  refine fun hi => .either (tries_attempt (advances_indexOrSlice gives) hi) (tries_none hi)
    fun mid index ⟨same, indexed⟩ => ?_
  subst same
  refine .either (tries_attempt (fills_typeArguments gives).advances mid) (tries_none mid)
    fun mid types ⟨same, typed⟩ => ?_
  subst same
  beta_reduce
  split
  · exact takes_set (.pure (indexed _ _ rfl))
  · exact takes_set (.pure (typed _ _ rfl))
  · exact .failure

theorem advances_selected (operand : Operand) : Advances (selected phrases operand) := by
  refine (gives_mark _).advances.bind fun _ => (still_atMark _ _).shrinks.bind fun here => ?_
  split
  · exact (gives_mark _).shrinks.bind fun _ => (gives _).shrinks.bind fun _ =>
      (gives_mark _).shrinks.bind fun _ => .pure _
  · exact (gives_word _).shrinks.bind fun _ => .pure _

theorem shrinks_suffix? (s : Setting) (operand : Operand) :
    Shrinks (suffix? phrases s operand) := by
  refine (still_peek _).shrinks.bind fun token => ?_
  split
  · refine still_atTypeGuard.shrinks.bind fun guard => ?_
    split
    · exact .pure _
    · exact (advances_selected gives _).shrinks.bind fun _ => .pure _
  · exact (advances_bracketed gives _).shrinks.bind fun _ => .pure _
  · split
    · exact (advances_arguments gives).shrinks.bind fun _ => .pure _
    · split
      · exact (advances_conversionArgument gives).shrinks.bind fun _ => .pure _
      · exact .pure _
  · split
    · exact (gives _).shrinks.bind fun _ => .pure _
    · exact .pure _
  · exact .pure _

theorem shrinks_suffixes (s : Setting) (n : Nat) (operand : Operand) :
    Shrinks (suffixes phrases s n operand) := by
  induction n generalizing operand with
  | zero => exact .failure
  | succ n ih =>
    refine (shrinks_suffix? gives s operand).bind fun result => ?_
    split
    · exact ih _
    · split
      · exact .pure _
      · exact .failure

theorem advances_parenthesized : Advances (parenthesized phrases) := by
  refine .orElse ?_ ?_
  · exact (gives_mark _).advances.bind fun _ => (gives _).shrinks.bind fun _ =>
      (gives_mark _).shrinks.bind fun _ => .pure _
  · exact (gives_mark _).advances.bind fun _ => (gives _).shrinks.bind fun _ =>
      (gives_mark _).shrinks.bind fun _ => .pure _

theorem advances_bracketOperand : Advances (bracketOperand phrases) := by
  refine .orElse ?_ ?_
  · exact (gives_bracketType gives _).advances.bind fun _ => .pure _
  · exact (gives_mark _).advances.bind fun _ => (gives_mark _).shrinks.bind fun _ =>
      (gives_mark _).shrinks.bind fun _ => (gives _).shrinks.bind fun _ => .pure _

theorem advances_functionOperand : Advances (functionOperand phrases) := by
  refine (fills_functionType gives _).advances.bind fun _ =>
    (still_atMark _ _).shrinks.bind fun here => ?_
  split
  · exact (gives _).shrinks.bind fun _ => .pure _
  · exact .pure _

theorem advances_keywordOperand (s : Setting) (k : Keyword) :
    Advances (keywordOperand phrases s k) := by
  have named : ∀ o : Operand, Advances do
      let _ ← take
      return o := fun _ => advances_take.bind fun _ => .pure _
  have typed : ∀ o : Operand, Advances do
      let _ ← phrases (.type false)
      return o := fun _ => (gives _).advances.bind fun _ => .pure _
  have called : Advances do
      let _ ← take
      if ← atMark s.line .parenL then
        let _ ← typeFirstArguments phrases
      return Operand.ofValue := by
    refine advances_take.bind fun _ => (still_atMark _ _).shrinks.bind fun here => ?_
    split
    · exact (advances_typeFirstArguments gives).shrinks.bind fun _ => .pure _
    · exact .pure _
  unfold keywordOperand
  split
  · exact advances_functionOperand gives
  all_goals first | exact typed _ | exact called | exact named _

theorem advances_operandHead (s : Setting) : Advances (operandHead phrases s) := by
  have taken : ∀ o : Operand, Advances do
      let _ ← take
      return o := fun _ => advances_take.bind fun _ => .pure _
  refine (still_peek _).shrinks.advance fun token => ?_
  split
  · exact advances_keywordOperand gives s _
  all_goals try exact taken _
  · exact advances_parenthesized gives
  · exact advances_bracketOperand gives
  · exact (gives _).advances.bind fun _ => .pure _
  · exact .failure

theorem advances_operand (s : Setting) : Advances (operand phrases s) := by
  refine (lists_repeatWhile fun hi =>
    .still (still_peek _) fun token => ?_).shrinks.advance fun _ =>
      (advances_operandHead gives s).bind fun head => still_get.shrinks.bind fun c =>
        shrinks_suffixes gives s _ head
  split
  · split
    · exact (advances_take hi).bind fun _ _ less => .pure (.nil less.le)
    · exact .pure (.nil le_rfl)
  · exact .pure (.nil le_rfl)

theorem gives_expressionRule (s : Setting) : Gives (expressionRule phrases s) := by
  refine gives_node (by decide) fun hi => (advances_operand gives s hi).bind fun mid _ less =>
    (lists_repeatWhile (fun hi => .still (still_peek _) fun token => ?_) mid).mono
      fun _ _ series => ⟨(Series.nil less.le).append series, series.le.trans_lt less⟩
  split
  · split
    · exact (advances_take hi).bind fun mid _ less => (advances_operand gives s mid).bind
        fun _ _ less' => .pure (.nil (less'.trans less).le)
    · exact .pure (.nil le_rfl)
  · exact .pure (.nil le_rfl)

theorem gives_expressionList (s : Setting) : Gives (expressionList phrases s) := by
  refine gives_node (by decide) fun hi => (gives _ hi).bind fun mid _ first =>
    (lists_repeatWhile (fun hi => .still (still_atMark _ _) fun here => ?_) mid).bind
      fun _ _ others => .pure (.cons first others)
  split
  · exact (gives_mark _ hi).bind fun mid _ comma => (gives _ mid).bind fun _ _ e =>
      .pure (.cons comma (.one e))
  · exact .pure (.nil le_rfl)

end Marginalia.Go.Grammar
