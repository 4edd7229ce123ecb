/-
Module: Marginalia.Proofs.Go.Grammar.Statement
Purpose: The rules for declarations and statements give drafts that stand in order among the lexemes
  that they take.
Main exports:
  gives_declaration, advances_simple, lists_statements, advances_plainStatement,
  gives_statementRule
-/
import Marginalia.Go.Grammar.Statement
import Marginalia.Proofs.Go.Grammar.Expression

namespace Marginalia.Go.Grammar

/-! ### Parts of declarations and statements -/

theorem fills_declaredNames (line : Bool) : Fills (declaredNames line) :=
  fills_separated line ((gives_word _).inRole _).one

theorem still_atSpecEnd : Still atSpecEnd := by
  refine (still_peek _).bind fun token => ?_
  split <;> exact .pure _

/-- A keyword with one spec behind it, or with several between parentheses. -/
theorem gives_declaration {kind : Kind} (other : kind ≠ .fieldDeclaration) (k : Keyword)
    {several : Draft → Reading (List Draft)} {spec : Reading Draft}
    (group : ∀ hi mid head, Sits hi mid head → Takes mid (Filled hi) (several head))
    (single : Gives spec) : Gives (node kind do
      let head ← keyword k
      if ← atMark false .parenL then several head else return [head, ← spec]) := by
  refine gives_node other fun hi => (gives_keyword _ hi).bind fun mid head sits =>
    .still (still_atMark _ _) fun here => ?_
  split
  · exact group hi mid head sits
  · exact (single mid).bind fun _ _ spec => .pure (.cons sits (.one spec))

theorem still_atListEnd (place : Place) : Still (atListEnd place) := by
  refine (still_peek _).bind fun token => ?_
  split <;> exact .pure _

theorem shrinks_typeGuard : Shrinks typeGuard :=
  (gives_mark _).shrinks.bind fun _ => (gives_mark _).shrinks.bind fun _ =>
    (gives_keyword _).shrinks.bind fun _ => (gives_mark _).shrinks.bind fun _ => .pure _

theorem advances_jump (place : Place) : Advances (jump place) := by
  refine advances_take.bind fun _ => (still_peek _).shrinks.bind fun token => ?_
  split
  · split
    · exact .pure _
    · exact advances_take.shrinks.bind fun _ => .pure _
  · exact .pure _

/-- A label is a word and a colon, and without one nothing is taken. -/
theorem takes_label? (hi : Nat) :
    Takes hi (fun lo here => lo ≤ hi ∧ (here = true → lo < hi)) label? := by
  refine .still still_get fun c => ?_
  split
  · exact (advances_take hi).bind fun mid _ less => (advances_take mid).bind fun lo _ less' =>
      .pure ⟨by omega, fun _ => by omega⟩
  · exact .pure ⟨le_rfl, nofun⟩

/-! ### Declarations -/

variable {phrases : Phrases} (gives : ∀ phrase, Gives (phrases phrase))

include gives

theorem fills_assignedValues : Fills (assignedValues phrases) := fun hi =>
  (gives_mark _ hi).bind fun mid _ assign => (gives_expressionList gives _ mid).bind
    fun _ _ values => .pure (.cons assign (.one (values.withRole _)))

theorem gives_constSpec : Gives (constSpec phrases) := by
  refine gives_node (by decide) fun hi => (fills_declaredNames true hi).bind fun mid _ names =>
    .still (still_peek _) fun token => ?_
  split
  · exact (fills_assignedValues gives mid).bind fun _ _ values => .pure (names.append values.series)
  · split
    · exact (gives _ mid).bind fun next _ t => (fills_assignedValues gives next).bind
        fun _ _ values => .pure (names.append (.cons (t.withRole _) values.series))
    · exact .pure names
  · exact .pure names

theorem gives_varSpec : Gives (varSpec phrases) := by
  refine gives_node (by decide) fun hi => (fills_declaredNames false hi).bind fun mid _ names =>
    .still (still_atMark _ _) fun here => ?_
  split
  · exact (fills_assignedValues gives mid).bind fun _ _ values => .pure (names.append values.series)
  · refine (gives _ mid).bind fun next _ t => .still (still_atMark _ _) fun here => ?_
    split
    · exact (fills_assignedValues gives next).bind fun _ _ values =>
        .pure (names.append (.cons (t.withRole _) values.series))
    · exact .pure (names.append (.one (t.withRole _)))

theorem gives_typeSpec : Gives (typeSpec phrases) := by
  refine .orElse (gives_node (by decide) fun hi => ?_)
    (.orElse (gives_node (by decide) fun hi => ?_) (gives_node (by decide) fun hi => ?_))
  · exact (gives_word _ hi).bind fun mid _ name => (gives_mark _ mid).bind fun next _ assign =>
      (gives _ next).bind fun _ _ t =>
        .pure (.cons (name.withRole _) (.cons assign (.one (t.withRole _))))
  · refine (gives_word _ hi).bind fun mid _ name => (gives _ mid).bind fun next _ t =>
      .still still_atSpecEnd fun ended => ?_
    split
    · exact .pure (.cons (name.withRole _) (.one (t.withRole _)))
    · exact .failure
  · exact (gives_word _ hi).bind fun mid _ name => (gives_typeParameters gives mid).bind
      fun next _ ps => (gives _ next).bind fun _ _ t =>
        .pure (.cons (name.withRole _) (.cons ps (.one (t.withRole _))))

theorem gives_constDeclaration : Gives (constDeclaration phrases) :=
  gives_declaration (by decide) _ (fun _ mid _ head =>
    (fills_terminated (gives_constSpec gives) mid).bind fun _ _ specs =>
      .pure (.cons head specs.series)) (gives_constSpec gives)

theorem gives_varDeclaration : Gives (varDeclaration phrases) :=
  gives_declaration (by decide) _ (fun _ mid _ head =>
    (gives_node (by decide) (fills_terminated (gives_varSpec gives)) mid).bind fun _ _ specs =>
      .pure (.cons head (.one specs))) (gives_varSpec gives)

theorem gives_typeDeclaration : Gives (typeDeclaration phrases) :=
  gives_declaration (by decide) _ (fun _ mid _ head =>
    (fills_terminated (gives_typeSpec gives) mid).bind fun _ _ specs =>
      .pure (.cons head specs.series)) (gives_typeSpec gives)

/-! ### Statements -/

theorem shrinks_otherExpressions : Shrinks (otherExpressions phrases) := by
  refine (lists_repeatWhile fun hi => .still (still_atMark _ _) fun here => ?_).shrinks.bind
    fun _ => .pure _
  split
  · exact (gives_mark _ hi).bind fun mid _ comma => (gives _ mid).bind fun _ _ e =>
      .pure (.cons comma (.one e))
  · exact .pure (.nil le_rfl)

theorem advances_simple (s right : Setting) : Advances (simple phrases s right) := by
  have assigned : Shrinks do
      let _ ← expressionList phrases right
      return Simple.other :=
    (gives_expressionList gives right).shrinks.bind fun _ => .pure _
  refine (gives _).advances.bind fun _ => (still_peek _).shrinks.bind fun token => ?_
  split
  · exact advances_take.shrinks.bind fun _ => .pure _
  · exact advances_take.shrinks.bind fun _ => .pure _
  · exact advances_take.shrinks.bind fun _ => (gives _).shrinks.bind fun _ => .pure _
  · refine (shrinks_otherExpressions gives).bind fun _ => advances_take.shrinks.bind fun l => ?_
    split
    · split
      · exact assigned
      · exact Shrinks.failure.bind fun _ => assigned
    · exact Shrinks.failure.bind fun _ => assigned
  · split
    · exact advances_take.shrinks.bind fun _ => assigned
    · exact .pure _
  · exact .pure _

theorem lists_statements (place : Place) : Lists (statements phrases place) := by
  refine lists_repeatWhile fun hi => .still (still_atListEnd _) fun ended => ?_
  split
  · exact .pure (.nil le_rfl)
  · refine (gives _ hi).bind fun mid _ last => takes_ended last (fun _ => rfl) fun lo le =>
      .still (still_atListEnd _) fun ended => ?_
    split
    · exact .pure (.cons last (.nil le))
    · exact .failure

theorem gives_blockRule : Gives (blockRule phrases) :=
  gives_node (by decide) (fills_between _ _ (lists_statements gives _))

theorem advances_ifStatement : Advances (ifStatement phrases) := by
  have branches : Shrinks (do
      let _ ← phrases .block
      if (← peek true) = some (.word (some .elseWord)) then
        let _ ← take
        if (← peek false) = some (.word (some .ifWord)) then
          let _ ← phrases (.statement .block)
        else
          let _ ← phrases .block) := by
    refine (gives _).shrinks.bind fun _ => (still_peek _).shrinks.bind fun token => ?_
    split
    · refine advances_take.shrinks.bind fun _ => (still_peek _).shrinks.bind fun token => ?_
      split <;> exact (gives _).shrinks.bind fun _ => .pure _
    · exact .pure _
  refine (gives_keyword _).advances.bind fun _ => (advances_simple gives _ _).shrinks.bind
    fun first => (still_atMark _ _).shrinks.bind fun here => ?_
  split
  · exact advances_take.shrinks.bind fun _ => (gives _).shrinks.bind fun _ => branches
  · split
    · exact Shrinks.failure.bind fun _ => branches
    · exact branches

theorem shrinks_forTail : Shrinks (forTail phrases) := by
  refine (gives_mark _).shrinks.bind fun _ => (shrinks_optionalExpression gives _).bind fun _ =>
    (gives_mark _).shrinks.bind fun _ => (still_atMark _ _).shrinks.bind fun here => ?_
  split
  · exact .pure _
  · exact (advances_simple gives _ _).shrinks.bind fun _ => .pure _

theorem shrinks_rangeClause : Shrinks (rangeClause phrases) :=
  (gives_keyword _).shrinks.bind fun _ => (gives _).shrinks.bind fun _ => .pure _

theorem shrinks_forHead : Shrinks (forHead phrases) := by
  refine (still_peek _).shrinks.bind fun token => ?_
  split
  · exact .pure _
  · exact shrinks_forTail gives
  · exact shrinks_rangeClause gives
  · refine .orElse ?_ ?_
    · refine (gives _).shrinks.bind fun _ => (shrinks_otherExpressions gives).bind fun _ =>
        advances_take.shrinks.bind fun l => ?_
      split
      · exact shrinks_rangeClause gives
      · exact .failure
    · refine (advances_simple gives _ _).shrinks.bind fun first =>
        (still_atMark _ _).shrinks.bind fun here => ?_
      split
      · exact shrinks_forTail gives
      · split
        · exact .failure
        · exact .pure _

theorem advances_forStatement : Advances (forStatement phrases) :=
  (gives_keyword _).advances.bind fun _ => (shrinks_forHead gives).bind fun _ =>
    (gives _).shrinks.bind fun _ => .pure _

theorem shrinks_clauses {label : Reading Unit} (shrinks : Shrinks label) :
    Shrinks (clauses phrases label) := by
  -- what stands before the statements of a clause leaves no drafts
  have clause : ∀ hi mid, mid ≤ hi → Takes mid (fun lo result => Series hi lo (result.getD [])) do
      let _ ← mark .colon
      return some (← statements phrases .clause) :=
    fun hi mid le => (gives_mark _ mid).bind fun next _ colon =>
      (lists_statements gives _ next).bind fun _ _ inner =>
        .pure ((Series.nil (colon.lt.le.trans le)).append inner)
  refine (gives_mark _).shrinks.bind fun _ => (lists_repeatWhile fun hi =>
    .still (still_atMark _ _) fun here => ?_).shrinks.bind fun _ =>
      (gives_mark _).shrinks.bind fun _ => .pure _
  split
  · exact .pure (.nil le_rfl)
  · refine (advances_take hi).bind fun mid l less => ?_
    split
    · exact (shrinks mid).bind fun next _ le => clause hi next (le.trans less.le)
    · exact clause hi mid less.le
    · exact .failure

theorem shrinks_expressionClauses : Shrinks (expressionClauses phrases) :=
  shrinks_clauses gives ((gives_expressionList gives _).shrinks.bind fun _ => .pure _)

theorem shrinks_typeClauses : Shrinks (typeClauses phrases) :=
  shrinks_clauses gives ((fills_separated _ (gives _).one).advances.shrinks.bind fun _ => .pure _)

theorem advances_switchGuard : Advances (switchGuard phrases) := by
  refine .orElse ?_ ?_
  · exact (gives_expressionList gives _).advances.bind fun _ => (gives_mark _).shrinks.bind fun _ =>
      (gives _).shrinks.bind fun _ => shrinks_typeGuard
  · exact (gives _).advances.bind fun _ => shrinks_typeGuard

theorem shrinks_switchTail : Shrinks (switchTail phrases) := by
  refine fun hi => (tries_attempt (advances_switchGuard gives) hi).bind
    fun mid result ⟨same, guarded⟩ => ?_
  subst same
  split
  · exact takes_set ((shrinks_typeClauses gives _).mono fun _ _ le =>
      le.trans (guarded _ _ rfl).le)
  · refine .still (still_atMark _ _) fun here => ?_
    split
    · exact shrinks_expressionClauses gives mid
    · exact ((gives _).shrinks.bind fun _ => shrinks_expressionClauses gives) mid

theorem advances_switchStatement : Advances (switchStatement phrases) := by
  refine (gives_keyword _).advances.bind fun _ hi => ?_
  have initial : Advances (do
      let _ ← simple phrases { opening with body := true } {}
      let _ ← mark .semicolon) :=
    (advances_simple gives _ _).bind fun _ => (gives_mark _).shrinks.bind fun _ => .pure _
  refine (tries_attempt initial hi).bind fun mid result ⟨same, begun⟩ => ?_
  subst same
  split
  · exact takes_set ((shrinks_switchTail gives _).mono fun _ _ le => le.trans (begun _ _ rfl).le)
  · exact shrinks_switchTail gives mid

theorem advances_selectStatement : Advances (selectStatement phrases) := by
  refine (gives_keyword _).advances.bind fun _ => shrinks_clauses gives ?_
  refine (gives _).shrinks.bind fun _ => (still_peek _).shrinks.bind fun token => ?_
  split
  · exact advances_take.shrinks.bind fun _ => (gives _).shrinks.bind fun _ => .pure _
  · exact .pure _
  · refine (shrinks_otherExpressions gives).bind fun _ => advances_take.shrinks.bind fun l => ?_
    split
    · exact (gives _).shrinks.bind fun _ => .pure _
    · exact .failure

theorem advances_returnStatement (place : Place) : Advances (returnStatement phrases place) := by
  have values : Shrinks (do let _ ← expressionList phrases atLineEnd) :=
    (gives_expressionList gives _).shrinks.bind fun _ => .pure _
  refine advances_take.bind fun _ => (still_peek _).shrinks.bind fun token => ?_
  split
  · split
    · exact .pure _
    · exact values
  · split
    · exact values
    · exact .pure _
  · exact .pure _

theorem advances_plainStatement (place : Place) : Advances (plainStatement phrases place) := by
  refine fun hi => (takes_label? hi).bind fun mid here ⟨le, labelled⟩ => ?_
  split
  · rename_i here
    have less := labelled here
    refine .still (still_atListEnd _) fun ended => ?_
    split
    · exact .pure less
    · exact ((gives _ mid).mono fun _ _ t => t.lt.trans less).bind fun _ _ less => .pure less
  · exact ((advances_simple gives _ _ mid).mono fun _ _ less => less.trans_le le).bind
      fun _ _ less => .pure less

theorem gives_statementRule (place : Place) : Gives (statementRule phrases place) := by
  have whole {reader : Reading Unit} (advances : Advances reader) :
      Gives (node .statement do reader; return []) :=
    gives_node (by decide) fun hi => (advances hi).bind fun _ _ less => .pure ⟨.nil less.le, less⟩
  have taken : Advances (do let _ ← take) := advances_take.bind fun _ => .pure _
  have simple : Advances (do
      let _ ← simple phrases { opening with line := true } atLineEnd) :=
    (advances_simple gives _ _).bind fun _ => .pure _
  have started : Advances (do
      let _ ← take
      let _ ← phrases (.expression atLineEnd)) :=
    advances_take.bind fun _ => (gives _).shrinks.bind fun _ => .pure _
  have plain := advances_plainStatement gives place
  refine fun hi => .still (still_peek _) fun token => ?_
  split
  · exact whole taken hi
  · exact gives_blockRule gives hi
  · split
    · exact gives_constDeclaration gives hi
    · exact gives_varDeclaration gives hi
    · exact gives_typeDeclaration gives hi
    · exact whole (advances_returnStatement gives place) hi
    · exact whole started hi
    · exact whole started hi
    · exact whole (advances_ifStatement gives) hi
    · exact whole (advances_forStatement gives) hi
    · exact whole (advances_switchStatement gives) hi
    · exact whole (advances_selectStatement gives) hi
    · exact whole (advances_jump place) hi
    · exact whole (advances_jump place) hi
    · exact whole (advances_take.bind fun _ => (gives_word _).shrinks.bind fun _ => .pure _) hi
    · exact whole taken hi
    -- the keywords that begin a statement in some places only
    iterate 4
      · split
        · exact .failure
        · exact whole plain hi
    · exact whole plain hi
    · exact whole plain hi
    · exact whole simple hi
  · exact whole plain hi

end Marginalia.Go.Grammar
