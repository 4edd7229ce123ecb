/-
Module: Marginalia.Proofs.Go.Grammar.Type
Purpose: The rules for types give drafts that stand in order among the lexemes that they take.
Main exports:
  Asides, Parts, gives_fieldDeclaration, gives_typeRule
-/
import Marginalia.Go.Grammar.Type
import Marginalia.Proofs.Go.Grammar.Takes

namespace Marginalia.Go.Grammar

/-! ### Names and parts of fields -/

theorem gives_typeName (line : Bool) : Gives (typeName line) := by
  refine fun hi => (gives_word _ hi).bind fun mid name whole =>
    .still (still_atMark _ _) fun here => ?_
  split
  · cases name with
    | node kind role start stop cs =>
      refine (gives_mark _ mid).bind fun next _ dot =>
        (gives_word _ next).bind fun lo inner last => .pure ?_
      have package : Sits start mid (.node .packageIdentifier (some .package) start stop []) :=
        .childless le_rfl whole.lt_stop whole.forward _ _
      have stops : Sits next (inner.stop - 1) inner :=
        ⟨last.start_le, Nat.pred_lt_of_lt last.lt_stop, last.sound⟩
      exact (Filled.cons package (.cons dot (.one (stops.withRole .name)))).node whole.start_le
        last.lt_stop (fun same => Kind.noConfusion same) none
  · exact .pure whole

/-- A series without types. -/
def Asides (hi lo : Nat) (ts : List Draft) : Prop :=
  Series hi lo ts ∧ ∀ t ∈ ts, t.role ≠ some .type

theorem Asides.append {hi mid lo : Nat} {ts us : List Draft} (front : Asides hi mid ts)
    (back : Asides mid lo us) : Asides hi lo (ts ++ us) :=
  ⟨front.1.append back.1, List.forall_mem_append.2 ⟨front.2, back.2⟩⟩

theorem asides_mark (m : Mark) (hi : Nat) : Takes hi (fun lo t => Asides hi lo [t]) (mark m) := by
  refine (takes_take hi).bind fun lo l taken => ?_
  split
  · exact .pure ⟨.one (sits_leaf taken _), by simp [leaf, Node.role]⟩
  · exact .failure

theorem asides_name (kind : Kind) (hi : Nat) :
    Takes hi (Asides hi) (one (inRole .name (word kind))) := by
  have named : Takes hi (fun lo t => Sits hi lo t ∧ t.role = some .name)
      (inRole .name (word kind)) :=
    (gives_word kind hi).bind fun _ t sits => .pure ⟨sits.withRole _, by cases t; rfl⟩
  exact named.bind fun _ t ⟨sits, role⟩ => .pure ⟨.one sits, by simp [role]⟩

/-- The parts of a field: no star stands behind the type. -/
def Parts (hi lo : Nat) (ts : List Draft) : Prop :=
  Filled hi lo ts ∧ StarsLead ts

/-- What is not the type may stand before it. -/
theorem Asides.concat {hi mid lo : Nat} {ts : List Draft} (before : Asides hi mid ts) {t : Draft}
    (type : Sits mid lo t) : Parts hi lo (ts ++ [t.withRole .type]) := by
  refine ⟨⟨before.1.append (.one (type.withRole _)), type.lt.trans_le before.1.le⟩, ?_⟩
  rw [StarsLead, List.pairwise_append]
  refine ⟨?_, List.pairwise_singleton _ _, fun a member b _ same => absurd same (before.2 a member)⟩
  exact List.pairwise_of_forall_mem_list fun a member b _ same => absurd same (before.2 a member)

/-- A tag may stand behind the type. -/
theorem Parts.tag {hi mid : Nat} {ts : List Draft} (parts : Parts hi mid ts) :
    Takes mid (Parts hi) (do return ts ++ [(← stringLiteral).withRole .tag]) := by
  have literal : Takes mid (fun lo t => Sits mid lo t ∧ t.kind ≠ .mark .star) stringLiteral := by
    refine (takes_take mid).bind fun lo l taken => ?_
    split
    · exact .pure ⟨sits_leaf taken _, by simp [leaf, Node.kind]⟩
    · exact .pure ⟨sits_leaf taken _, by simp [leaf, Node.kind]⟩
    · exact .failure
  refine literal.bind fun lo t ⟨sits, other⟩ => .pure
    ⟨parts.1.append (.one (sits.withRole _)), ?_⟩
  rw [StarsLead, List.pairwise_append]
  refine ⟨parts.2, List.pairwise_singleton _ _, fun a _ b member _ => ?_⟩
  obtain rfl := List.mem_singleton.1 member
  cases t
  exact other

variable {phrases : Phrases} (gives : ∀ phrase, Gives (phrases phrase))

include gives

/-! ### Names and parameters -/

theorem gives_typeElem (line : Bool) : Gives (typeElem phrases line) := by
  have more : Offers do
      if ← atMark line .bar then return some [← mark .bar, ← phrases (.type line)]
      else return none := by
    refine fun hi => .still (still_atMark _ _) fun here => ?_
    split
    · exact (gives_mark _ hi).bind fun mid _ bar => (gives _ mid).bind fun _ _ t =>
        .pure (.cons bar (.one t))
    · exact .pure (.nil le_rfl)
  exact gives_node (by decide) fun hi => (gives _ hi).bind fun mid _ first =>
    (lists_repeatWhile more mid).bind fun _ _ others => .pure (.cons first others)

theorem fills_typeArguments : Fills (typeArguments phrases) := fun hi =>
  (fills_enclosed _ _ _ (gives_typeElem gives false).one.lists hi).bind fun _ _ filled =>
    .test (.pure filled)

theorem gives_namedType (line : Bool) : Gives (namedType phrases line) := by
  refine fun hi => (gives_typeName line hi).bind fun mid name whole =>
    .still (still_atMark _ _) fun here => ?_
  split
  · refine .orElse ?_ (.pure whole)
    refine (fills_typeArguments gives mid).bind fun lo _ filled => (takes_lastNumber lo).bind
      fun _ _ ⟨same, last⟩ => .pure ?_
    rw [same, last]
    exact (Filled.cons (whole.tight.withRole .type) filled.series).node whole.start_le
      (Nat.lt_succ_self lo) (fun same => Kind.noConfusion same) none
  · exact .pure whole

theorem fills_parameter : Fills (parameter phrases) := by
  have variadic : Fills do return [← mark .ellipsis, ← phrases (.type false)] :=
    fun hi => (gives_mark _ hi).bind fun mid _ dots => (gives _ mid).bind fun _ _ t =>
      .pure (.cons dots (.one t))
  refine fun hi => .still (still_peek _) fun token => ?_
  split
  · exact variadic hi
  · refine .orElse (.test ?_) ((gives _).one hi)
    refine (gives_word _ hi).bind fun mid _ name => .still (still_peek _) fun next => ?_
    split
    · exact (variadic mid).bind fun _ _ filled => .pure (.cons name filled.series)
    · split
      · refine (gives _ mid).bind fun lo _ t => .still still_atParameterEnd fun ended => ?_
        split
        · exact .pure (.cons name (.one t))
        · exact .failure
      · exact .failure
    · exact .failure
  · exact (gives _).one hi

theorem gives_parameters : Gives (parameters phrases) :=
  gives_node (by decide) (fills_enclosed _ _ _ (fills_parameter gives).lists)

theorem lists_result? (line : Bool) : Lists (result? phrases line) := by
  refine fun hi => .still (still_peek _) fun token => ?_
  split
  · exact (gives_parameters gives hi).bind fun _ _ ps => .pure (.one (ps.withRole _))
  · split
    · exact (gives _ hi).bind fun _ _ t => .pure (.one (t.withRole _))
    · exact .pure (.nil le_rfl)
  · exact .pure (.nil le_rfl)

theorem gives_typeParameters : Gives (typeParameters phrases) := by
  have constrained : Fills do
      let names ← separated false (one (word .identifier))
      return names ++ [← typeElem phrases false] :=
    fun hi => (fills_separated _ (gives_word _).one hi).bind fun mid _ names =>
      (gives_typeElem gives false mid).bind fun _ _ t => .pure (names.append (.one t))
  exact gives_node (by decide) fun hi => (fills_enclosed _ _ _ constrained.lists hi).bind
    fun _ _ filled => .test (.pure filled)

/-! ### Fields -/

theorem parts_embeddedField (hi : Nat) : Takes hi (Parts hi) (embeddedField phrases) := by
  have star : Takes hi (Asides hi) (mark? false .star) := by
    refine .still (still_atMark _ _) fun here => ?_
    split
    · exact (asides_mark _ hi).bind fun _ _ aside => .pure aside
    · exact .pure ⟨.nil le_rfl, by simp⟩
  refine star.bind fun mid ts before => (gives_namedType gives true mid).bind fun lo t type =>
    .still still_atFieldEnd fun ended => ?_
  split
  · exact .pure (before.concat type)
  · exact .failure

theorem parts_namedField (hi : Nat) : Takes hi (Parts hi) (namedField phrases) := by
  have names : Takes hi (Asides hi)
      (separated false (one (inRole .name (word .fieldIdentifier)))) :=
    takes_separated Asides.append false (fun _ => ⟨.nil le_rfl, by simp⟩) (asides_mark _)
      (asides_name _) id Asides.append hi
  refine names.bind fun mid ts before => (gives _ mid).bind fun lo t type =>
    .still still_atFieldEnd fun ended => ?_
  split
  · exact .pure (before.concat type)
  · exact .failure

theorem gives_fieldDeclaration : Gives (fieldDeclaration phrases) := by
  refine gives_node_of Parts (fun hi => ?_) fun _ _ _ parts => ⟨parts.1, fun _ => parts.2⟩
  refine ((parts_embeddedField gives hi).orElse (parts_namedField gives hi)).bind fun mid ts each =>
    .still (still_peek _) fun token => ?_
  split
  · exact each.tag
  · exact each.tag
  · exact .pure each

theorem gives_fieldList : Gives (fieldList phrases) :=
  gives_node (by decide) (fills_listed _ _ (gives_fieldDeclaration gives))

theorem gives_methodElem : Gives (methodElem phrases) := by
  refine gives_node (by decide) fun hi => (gives_word _ hi).bind fun mid _ name =>
    .still (still_atMark _ _) fun here => ?_
  split
  · exact (gives_parameters gives mid).bind fun next _ ps => (lists_result? gives true next).bind
      fun _ _ result => .pure (.cons (name.withRole _) (.cons (ps.withRole _) result))
  · exact .failure

theorem gives_interfaceElem : Gives (interfaceElem phrases) := by
  have method := (gives_methodElem gives).orElse (gives_typeElem gives true)
  refine fun hi => .still (still_peek _) fun token => ?_
  split
  · split
    · exact gives_typeElem gives true hi
    · exact method hi
  · exact method hi
  · exact gives_typeElem gives true hi

/-! ### Types -/

theorem fills_functionType (line : Bool) : Fills (functionType phrases line) := fun hi =>
  (gives_keyword _ hi).bind fun mid _ func => (gives_parameters gives mid).bind fun next _ ps =>
    (lists_result? gives line next).bind fun _ _ result =>
      .pure (.cons func (.cons (ps.withRole _) result))

theorem gives_bracketType (line : Bool) : Gives (bracketType phrases line) := by
  refine .orElse (gives_node (by decide) fun hi => ?_) (gives_node (by decide) fun hi => ?_)
  · exact (gives_mark _ hi).bind fun mid _ opening => (gives_mark _ mid).bind
      fun next _ closing => (gives _ next).bind fun _ _ t =>
        .pure (.cons opening (.cons closing (.one t)))
  · exact (gives_mark _ hi).bind fun mid _ opening => (gives _ mid).bind fun next _ length =>
      (gives_mark _ next).bind fun last _ closing => (gives _ last).bind fun _ _ t =>
        .pure (.cons opening (.cons length (.cons closing (.one t))))

theorem gives_keywordType (line : Bool) (k : Keyword) : Gives (keywordType phrases line k) := by
  unfold keywordType
  split
  · exact gives_node (by decide) fun hi => (gives_keyword _ hi).bind fun mid _ head =>
      (gives_fieldList gives mid).bind fun _ _ fields => .pure (.cons head (.one fields))
  · exact gives_node (by decide) fun hi => (gives_keyword _ hi).bind fun mid _ head =>
      (fills_listed _ _ (gives_interfaceElem gives) mid).bind fun _ _ elems =>
        .pure (.cons head elems.series)
  · exact gives_node (by decide) fun hi => (gives_keyword _ hi).bind fun a _ head =>
      (gives_mark _ a).bind fun b _ opening => (gives _ b).bind fun c _ key =>
        (gives_mark _ c).bind fun d _ closing => (gives _ d).bind fun _ _ value =>
          .pure (.cons head (.cons opening (.cons key (.cons closing (.one value)))))
  · exact gives_node (by decide) fun hi => (gives_keyword _ hi).bind fun mid _ head =>
      (lists_mark? _ _ mid).bind fun next _ arrow => (gives _ next).bind fun _ _ t =>
        .pure (.cons head (arrow.append (.one t)))
  · exact gives_node (by decide) (fills_functionType gives line)
  · exact gives_namedType gives line

theorem gives_typeRule (line : Bool) : Gives (typeRule phrases line) := by
  refine fun hi => .still (still_peek _) fun token => ?_
  split
  · exact gives_keywordType gives line _ hi
  · exact gives_namedType gives line hi
  · exact gives_node (by decide) (fun hi => (gives_mark _ hi).bind fun mid _ star =>
      (gives _ mid).bind fun _ _ t => .pure (.cons star (.one t))) hi
  · exact gives_node (by decide) (fun hi => (gives_mark _ hi).bind fun mid _ opening =>
      (gives _ mid).bind fun next _ t => (gives_mark _ next).bind fun _ _ closing =>
        .pure (.cons opening (.cons t (.one closing)))) hi
  · exact gives_bracketType gives line hi
  · exact gives_node (by decide) (fun hi => (gives_mark _ hi).bind fun mid _ arrow =>
      (gives_keyword _ mid).bind fun next _ chan => (gives _ next).bind fun _ _ t =>
        .pure (.cons arrow (.cons chan (.one t)))) hi
  · exact gives_node (by decide) (fun hi => (gives_mark _ hi).bind fun mid _ tilde =>
      (gives _ mid).bind fun _ _ t => .pure (.cons tilde (.one t))) hi
  · exact .failure

end Marginalia.Go.Grammar
