/-
Module: Marginalia.Proofs.Go.Grammar.SourceFile
Purpose: What is read of a source file stands in order among its lexemes.
Main exports:
  gives_rule, gives_readPhrase, gives_topLevel, lists_sourceFile
-/
import Marginalia.Go.Grammar.SourceFile
import Marginalia.Proofs.Go.Grammar.Statement

namespace Marginalia.Go.Grammar

/-! ### Package clause and imports -/

theorem gives_packageClause : Gives packageClause :=
  gives_node (by decide) fun hi => (gives_keyword _ hi).bind fun mid _ head =>
    (gives_word _ mid).bind fun _ _ name => .pure (.cons head (.one name))

theorem gives_importSpec : Gives importSpec := by
  refine gives_node (by decide) fun hi => .still (still_peek _) fun token => ?_
  split
  · exact (gives_mark _ hi).bind fun mid _ dot => (gives_stringLiteral mid).bind fun _ _ path =>
      .pure (.cons (dot.withRole _) (.one (path.withRole _)))
  · exact (gives_word _ hi).bind fun mid _ name => (gives_stringLiteral mid).bind fun _ _ path =>
      .pure (.cons (name.withRole _) (.one (path.withRole _)))
  · exact (gives_stringLiteral hi).bind fun _ _ path => .pure (.one (path.withRole _))

theorem gives_importDeclaration : Gives importDeclaration :=
  gives_declaration (by decide) _ (fun _ mid _ head =>
    (gives_node (by decide) (fills_listed _ _ gives_importSpec) mid).bind fun _ _ specs =>
      .pure (.cons head (.one specs))) gives_importSpec

/-! ### Phrases and declarations -/

section Rules

variable {phrases : Phrases} (gives : ∀ phrase, Gives (phrases phrase))

include gives

theorem gives_rule (phrase : Phrase) : Gives (rule phrases phrase) := by
  cases phrase with
  | type line => exact gives_typeRule gives line
  | expression s => exact gives_expressionRule gives s
  | literal => exact gives_literalRule gives
  | block => exact gives_blockRule gives
  | statement place => exact gives_statementRule gives place

theorem lists_functionTail : Lists (functionTail phrases) := by
  refine fun hi => (lists_result? gives true hi).bind fun mid _ result =>
    .still (still_atMark _ _) fun here => ?_
  split
  · exact (gives _ mid).bind fun _ _ body => .pure (result.append (.one (body.withRole _)))
  · exact .pure result

theorem gives_functionDeclaration : Gives (functionDeclaration phrases) := by
  refine gives_node (by decide) fun hi => (gives_keyword _ hi).bind fun mid _ head =>
    (gives_word _ mid).bind fun next _ name => .still (still_atMark _ _) fun here => ?_
  exact .either ((gives_typeParameters gives).one.lists next) (.pure (.nil le_rfl))
    fun lo _ types => (gives_parameters gives lo).bind fun last _ ps =>
      (lists_functionTail gives last).bind fun _ _ tail => .pure
        (((Filled.cons head (.one (name.withRole _))).append types).append
          (.cons (ps.withRole _) tail))

theorem gives_methodDeclaration : Gives (methodDeclaration phrases) :=
  gives_node (by decide) fun hi => (gives_keyword _ hi).bind fun a _ head =>
    (gives_parameters gives a).bind fun b _ receiver => (gives_word _ b).bind fun c _ name =>
      (gives_parameters gives c).bind fun d _ ps => (lists_functionTail gives d).bind
        fun _ _ tail => .pure (.cons head (.cons (receiver.withRole _)
          (.cons (name.withRole _) (.cons (ps.withRole _) tail))))

theorem gives_topLevel : Gives (topLevel phrases) := by
  refine fun hi => .still (still_peek _) fun token => ?_
  split
  · exact gives_packageClause hi
  · exact gives_importDeclaration hi
  · exact ((gives_functionDeclaration gives).orElse
      ((gives_methodDeclaration gives).orElse (gives _))) hi
  · exact gives _ hi

end Rules

theorem gives_readPhrase (depth : Nat) (phrase : Phrase) : Gives (readPhrase depth phrase) := by
  induction depth generalizing phrase with
  | zero => exact fun _ => .failure
  | succ depth ih => exact gives_rule ih phrase

theorem lists_declarations : Lists declarations := by
  refine lists_repeatWhile fun hi => .still (still_peek _) fun token => ?_
  split
  · exact .pure (.nil le_rfl)
  · refine .still still_get fun c => (gives_topLevel (gives_readPhrase _) hi).bind
      fun mid _ last => takes_ended last (fun _ => rfl) fun lo le =>
        .still (still_peek _) fun ended => ?_
    split
    · exact .pure (.cons last (.nil le))
    · exact .failure

/-- The declarations of a source file stand in order among its lexemes. -/
theorem lists_sourceFile : Lists sourceFile :=
  fun hi => .still still_passNewline fun _ => lists_declarations hi

end Marginalia.Go.Grammar
