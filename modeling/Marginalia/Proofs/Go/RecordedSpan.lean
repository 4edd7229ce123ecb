/-
Module: Marginalia.Proofs.Go.RecordedSpan
Purpose: The spans that a source file records are nested or disjoint, as its syntax tree is ordered.
Main exports:
  Span.Nested, Nests, Everywhere, Node.Orderly, Node.StarLeads, SourceUnit.spans, typeExpr_nests,
  SourceUnit.ofTree_nests
-/
import Marginalia.Go.Build
import Marginalia.Proofs.Edit.Splice

namespace Marginalia.Go

/-! ### Spans that nest -/

/-- One span lies in another. -/
def Span.Within (a b : Span) : Prop :=
  b.start ≤ a.start ∧ a.stop ≤ b.stop

instance (a b : Span) : Decidable (a.Within b) :=
  inferInstanceAs (Decidable (_ ∧ _))

/-- Of two spans one lies in the other, or they are disjoint. -/
def Span.Nested (a b : Span) : Prop :=
  a.Within b ∨ b.Within a ∨ a.Disjoint b

/-- Spans between two offsets, any two of them nested or disjoint. -/
structure Nests (lo hi : Nat) (spans : List Span) : Prop where
  inside : ∀ s ∈ spans, lo ≤ s.start ∧ s.start ≤ s.stop ∧ s.stop ≤ hi
  nested : ∀ a ∈ spans, ∀ b ∈ spans, a.Nested b

namespace Nests

variable {lo mid hi : Nat} {spans others : List Span}

theorem nil : Nests lo hi [] :=
  ⟨by simp, by simp⟩

theorem mono {lo' hi' : Nat} (nests : Nests lo hi spans) (left : lo' ≤ lo) (right : hi ≤ hi') :
    Nests lo' hi' spans := by
  refine ⟨fun s member => ?_, nests.nested⟩
  have := nests.inside s member
  omega

theorem subset (nests : Nests lo hi spans) (part : others ⊆ spans) : Nests lo hi others :=
  ⟨fun s member => nests.inside s (part member),
    fun a first b second => nests.nested a (part first) b (part second)⟩

/-- A span around all others. -/
theorem around (nests : Nests lo hi spans) (forward : lo ≤ hi) :
    Nests lo hi (⟨lo, hi⟩ :: spans) := by
  have within : ∀ s ∈ ⟨lo, hi⟩ :: spans, s.Within ⟨lo, hi⟩ := by
    intro s member
    rcases List.mem_cons.1 member with rfl | member
    · exact ⟨le_rfl, le_rfl⟩
    · have := nests.inside s member
      exact ⟨this.1, this.2.2⟩
  refine ⟨List.forall_mem_cons.2 ⟨⟨le_rfl, forward, le_rfl⟩, nests.inside⟩, ?_⟩
  intro a first b second
  rcases List.mem_cons.1 first with rfl | first'
  · exact .inr (.inl (within b second))
  · rcases List.mem_cons.1 second with rfl | second'
    · exact .inl (within a first)
    · exact nests.nested a first' b second'

/-- Spans before an offset and spans after it. -/
theorem append (front : Nests lo mid spans) (back : Nests mid hi others) (left : lo ≤ mid)
    (right : mid ≤ hi) : Nests lo hi (spans ++ others) := by
  have apart : ∀ a ∈ spans, ∀ b ∈ others, a.stop ≤ b.start := by
    intro a first b second
    have := front.inside a first
    have := back.inside b second
    omega
  refine ⟨List.forall_mem_append.2
    ⟨(front.mono le_rfl right).inside, (back.mono left le_rfl).inside⟩, ?_⟩
  intro a first b second
  rcases List.mem_append.1 first with first | first
  · rcases List.mem_append.1 second with second | second
    · exact front.nested a first b second
    · exact .inr (.inr (.inl (apart a first b second)))
  · rcases List.mem_append.1 second with second | second
    · exact .inr (.inr (.inr (apart b second a first)))
    · exact back.nested a first b second

/-- The empty span at the start of the file nests with all others. -/
theorem cons_zero (nests : Nests lo hi spans) : Nests 0 hi (⟨0, 0⟩ :: spans) := by
  refine ⟨List.forall_mem_cons.2 ⟨by simp, (nests.mono (Nat.zero_le lo) le_rfl).inside⟩, ?_⟩
  intro a first b second
  rcases List.mem_cons.1 first with rfl | first
  · exact .inr (.inr (.inl (Nat.zero_le _)))
  · rcases List.mem_cons.1 second with rfl | second
    · exact .inr (.inr (.inr (Nat.zero_le _)))
    · exact nests.nested a first b second

end Nests

/-! ### The spans of a source file -/

mutual

/-- The spans of a type and of all types and fields in it. -/
def TypeExpr.spans : TypeExpr → List Span
  | .mk span _ kind => span :: kind.spans

/-- The spans of the types and fields in a type of this kind. -/
def TypeKind.spans : TypeKind → List Span
  | .pointer element => element.spans
  | .struct fields => fieldSpans fields
  | .interface elements => fieldSpans elements
  | _ => []

/-- The spans of fields and of all types and fields in them. -/
def fieldSpans : List Field → List Span
  | [] => []
  | .mk _ type _ span _ _ :: fields => span :: type.spans ++ fieldSpans fields

end

/-- The spans of a spec: the whole, the declared name of a type, and its type. -/
def Spec.spans : Spec → List Span
  | .type spec => spec.span :: spec.nameSpan :: spec.type.spans
  | .value spec => spec.span :: (spec.type.map TypeExpr.spans).getD []

/-- The spans of a declaration, its name and its specs. -/
def Decl.spans : Decl → List Span
  | .gen decl => decl.span :: decl.specs.flatMap Spec.spans
  | .func decl => [decl.span, decl.nameSpan]

/-- The spans of an import declaration and its specs. -/
def ImportDecl.spans (decl : ImportDecl) : List Span :=
  decl.span :: decl.specs.map (·.1)

/-- All spans that a source file records, those of comments apart. -/
def SourceUnit.spans (unit : SourceUnit) : List Span :=
  unit.packageSpan :: unit.importDecls.flatMap ImportDecl.spans ++ unit.decls.flatMap Decl.spans

/-! ### Ordered trees -/

/-- A property of a node and of all nodes below it. -/
inductive Everywhere {Place : Type} (property : Node Place → Prop) : Node Place → Prop where
  | intro {t : Node Place} (here : property t)
    (below : ∀ c ∈ t.children, Everywhere property c) : Everywhere property t

namespace Everywhere

variable {Place : Type} {p q : Node Place → Prop} {t : Node Place}

theorem here (every : Everywhere p t) : p t := by
  cases every with
  | intro here _ => exact here

theorem child (every : Everywhere p t) : ∀ c ∈ t.children, Everywhere p c := by
  cases every with
  | intro _ below => exact below

theorem imp (each : ∀ t, p t → q t) (every : Everywhere p t) : Everywhere q t := by
  induction every with
  | intro here _ ih => exact .intro (each _ here) ih

end Everywhere

mutual

/-- A property that can be decided of a node can be of all nodes below it. -/
def decideEverywhere {Place : Type} (p : Node Place → Prop) [DecidablePred p] :
    (t : Node Place) → Decidable (Everywhere p t)
  | .node kind role start stop cs =>
    match (inferInstance : Decidable (p (.node kind role start stop cs))),
        decideAllEverywhere p cs with
    | isTrue here, isTrue below => isTrue (.intro here below)
    | isFalse not, _ => isFalse fun ⟨here, _⟩ => not here
    | _, isFalse not => isFalse fun ⟨_, below⟩ => not below

def decideAllEverywhere {Place : Type} (p : Node Place → Prop) [DecidablePred p] :
    (ts : List (Node Place)) → Decidable (∀ t ∈ ts, Everywhere p t)
  | [] => isTrue fun _ member => nomatch member
  | t :: ts =>
    match decideEverywhere p t, decideAllEverywhere p ts with
    | isTrue first, isTrue others => isTrue (List.forall_mem_cons.2 ⟨first, others⟩)
    | isFalse not, _ => isFalse fun all => not (List.forall_mem_cons.1 all).1
    | _, isFalse not => isFalse fun all => not (List.forall_mem_cons.1 all).2

end

instance {Place : Type} (p : Node Place → Prop) [DecidablePred p] :
    DecidablePred (Everywhere p) :=
  decideEverywhere p

/-- The children of a node lie within it, each behind the one before. -/
structure Node.Orderly (t : Tree) : Prop where
  forward : t.start.offset ≤ t.stop.offset
  within : ∀ c ∈ t.children, c.span.Within t.span
  ordered : t.children.Pairwise fun a b => a.stop.offset ≤ b.start.offset

instance : DecidablePred Node.Orderly := fun t =>
  decidable_of_iff (t.start.offset ≤ t.stop.offset ∧ (∀ c ∈ t.children, c.span.Within t.span) ∧
      t.children.Pairwise fun a b => a.stop.offset ≤ b.start.offset)
    ⟨fun ⟨forward, within, ordered⟩ => ⟨forward, within, ordered⟩,
      fun orderly => ⟨orderly.forward, orderly.within, orderly.ordered⟩⟩

/-- In the declaration of a field no star stands behind the type. -/
def Node.StarLeads {Place : Type} (t : Node Place) : Prop :=
  t.kind = .fieldDeclaration →
    t.children.Pairwise fun a b => a.role = some .type → b.kind ≠ .mark .star

/-- A tree that is ordered throughout and has its stars in front of embedded types. -/
def Sound (t : Tree) : Prop :=
  Everywhere (fun t => t.Orderly ∧ t.StarLeads) t

theorem Sound.forward {t : Tree} (sound : Sound t) : t.start.offset ≤ t.stop.offset :=
  sound.here.1.forward

theorem Sound.starLeads {t : Tree} (sound : Sound t) : t.StarLeads :=
  sound.here.2

/-- Trees between two offsets, each behind the one before. -/
structure Row (lo hi : Nat) (ts : List Tree) : Prop where
  within : ∀ t ∈ ts, lo ≤ t.start.offset ∧ t.stop.offset ≤ hi
  ordered : ts.Pairwise fun a b => a.stop.offset ≤ b.start.offset
  sound : ∀ t ∈ ts, Sound t

theorem row_children {t : Tree} (sound : Sound t) :
    Row t.start.offset t.stop.offset t.children :=
  ⟨sound.here.1.within, sound.here.1.ordered, sound.child⟩

namespace Row

variable {lo hi : Nat} {t : Tree} {ts : List Tree}

theorem forward (row : Row lo hi ts) (member : t ∈ ts) : t.start.offset ≤ t.stop.offset :=
  (row.sound t member).forward

theorem tail (row : Row lo hi (t :: ts)) : Row t.stop.offset hi ts :=
  ⟨fun u member => ⟨(List.pairwise_cons.1 row.ordered).1 u member,
      (row.within u (List.mem_cons_of_mem _ member)).2⟩,
    (List.pairwise_cons.1 row.ordered).2,
    fun u member => row.sound u (List.mem_cons_of_mem _ member)⟩

/-- Spans of the trees behind the first. -/
theorem nests_tail (row : Row lo hi (t :: ts)) {spans : List Span}
    (nests : Nests t.stop.offset hi spans) : Nests lo hi spans := by
  have within := row.within t List.mem_cons_self
  have forward := row.forward List.mem_cons_self
  exact nests.mono (within.1.trans forward) le_rfl

/-- Spans of the first tree and spans of those behind it. -/
theorem nests_append (row : Row lo hi (t :: ts)) {spans others : List Span}
    (first : Nests t.start.offset t.stop.offset spans) (behind : Nests t.stop.offset hi others) :
    Nests lo hi (spans ++ others) := by
  have within := row.within t List.mem_cons_self
  have forward := row.forward List.mem_cons_self
  exact (first.mono within.1 le_rfl).append behind (within.1.trans forward) within.2

/-- Spans that nest within each of the trees nest together. -/
theorem nests_flatMap {spansOf : Tree → List Span} (row : Row lo hi ts) (forward : lo ≤ hi)
    (each : ∀ t ∈ ts, Nests t.start.offset t.stop.offset (spansOf t)) :
    Nests lo hi (ts.flatMap spansOf) := by
  induction ts generalizing lo with
  | nil => exact .nil
  | cons t ts ih =>
    obtain ⟨first, others⟩ := List.forall_mem_cons.1 each
    rw [List.flatMap_cons]
    exact row.nests_append first (ih row.tail (row.within t List.mem_cons_self).2 others)

/-- Spans that nest within one of the trees. -/
theorem nests_of_mem {spans : List Span} (row : Row lo hi ts) (member : t ∈ ts)
    (nests : Nests t.start.offset t.stop.offset spans) : Nests lo hi spans :=
  nests.mono (row.within t member).1 (row.within t member).2

/-- Spans that nest within two of the trees nest together. -/
theorem nests_pair {a b : Tree} {spans others : List Span} (row : Row lo hi ts) (first : a ∈ ts)
    (second : b ∈ ts) (differ : a ≠ b) (nests : Nests a.start.offset a.stop.offset spans)
    (nests' : Nests b.start.offset b.stop.offset others) : Nests lo hi (spans ++ others) := by
  have symm : Std.Symm fun a b : Tree => a.span.Disjoint b.span := ⟨fun _ _ apart => apart.symm⟩
  have disjoint : ts.Pairwise fun a b => a.span.Disjoint b.span :=
    row.ordered.imp fun before => Or.inl before
  have apart := disjoint.forall first second differ
  have within := row.within a first
  have within' := row.within b second
  have forward := row.forward first
  have forward' := row.forward second
  rcases apart with (before : a.stop.offset ≤ b.start.offset) | (behind : b.stop.offset ≤ _)
  · exact (nests.mono within.1 le_rfl).append (nests'.mono before within'.2) (by omega) (by omega)
  · have both := (nests'.mono within'.1 le_rfl).append (nests.mono behind within.2) (by omega)
      (by omega)
    exact both.subset (List.append_subset.2 ⟨List.subset_append_right _ _,
      List.subset_append_left _ _⟩)

end Row

/-- The span of a child. -/
theorem child_nests {t c : Tree} (sound : Sound t) (member : c ∈ t.children) :
    Nests t.start.offset t.stop.offset [c.span] :=
  (row_children sound).nests_of_mem member
    (Nests.around .nil ((row_children sound).forward member))

/-! ### Types -/

variable {source : String}

@[simp] theorem typeExpr_span (source : String) (t : Tree) : (typeExpr source t).span = t.span := by
  cases t
  rfl

theorem fieldSpans_cons (field : Field) (fields : List Field) :
    fieldSpans (field :: fields) = fieldSpans [field] ++ fieldSpans fields := by
  cases field
  simp [fieldSpans]

/-- The star of a field starts before the type, or is it. -/
theorem star_le_type {t star type : Tree} (sound : Sound t) (field : t.kind = .fieldDeclaration)
    (starFound : t.childOfKind? (.mark .star) = some star)
    (typeFound : t.childInRole? .type = some type) : star.start.offset ≤ type.start.offset := by
  have row := row_children sound
  have kind : star.kind = .mark .star := by simpa using List.find?_some starFound
  have role : type.role = some .type := by simpa using List.find?_some typeFound
  have member : star ∈ t.children := List.mem_of_find?_eq_some starFound
  obtain ⟨front, back, parts⟩ := List.append_of_mem (List.mem_of_find?_eq_some typeFound)
  have ordered := (List.pairwise_append.1 (parts ▸ row.ordered)).2.2
  have leads := (List.pairwise_append.1 (parts ▸ sound.starLeads field)).2.1
  rcases List.mem_append.1 (parts ▸ member) with before | behind
  · exact (row.forward member).trans (ordered star before type List.mem_cons_self)
  · rcases List.mem_cons.1 behind with rfl | behind
    · exact le_rfl
    · exact absurd kind ((List.pairwise_cons.1 leads).1 star behind role)

/-- The spans of a field nest within its node, if those of its type do within theirs. A pointer to
an embedded type reaches from the star to the end of the type. -/
theorem fieldOf_nests {t : Tree} (sound : Sound t) (field : t.kind = .fieldDeclaration)
    {inner : Tree} (found : t.childInRole? .type = some inner) {type : TypeExpr}
    (same : type.span = inner.span) (nests : Nests inner.start.offset inner.stop.offset type.spans)
    (doc comment : Option CommentGroup) :
    Nests t.start.offset t.stop.offset (fieldSpans [fieldOf source t type doc comment]) := by
  have row := row_children sound
  have member : inner ∈ t.children := List.mem_of_find?_eq_some found
  have within := row.within inner member
  have plain : Nests t.start.offset t.stop.offset type.spans := nests.mono within.1 within.2
  have around : ∀ {spans}, Nests t.start.offset t.stop.offset spans →
      Nests t.start.offset t.stop.offset (t.span :: spans) :=
    fun spans => spans.around sound.forward
  rw [fieldOf, fieldSpans, fieldSpans, List.append_nil]
  apply around
  split
  · rename_i star _ starFound
    have lead := star_le_type sound field starFound found
    have starWithin := row.within star (List.mem_of_find?_eq_some starFound)
    rw [same, TypeExpr.spans, TypeKind.spans]
    refine Nests.mono (Nests.around (nests.mono lead le_rfl) ?_) starWithin.1 within.2
    exact lead.trans (row.forward member)
  · exact plain

/-- The signature of a method reaches from the end of its name to the end of its node. -/
theorem methodOf_nests {t : Tree} (sound : Sound t) {name : Tree}
    (found : t.childInRole? .name = some name) (doc comment : Option CommentGroup) :
    Nests t.start.offset t.stop.offset (fieldSpans [methodOf source t name doc comment]) := by
  have row := row_children sound
  have member : name ∈ t.children := List.mem_of_find?_eq_some found
  have within := row.within name member
  have forward := row.forward member
  rw [methodOf, fieldSpans, fieldSpans, List.append_nil, TypeExpr.spans, TypeKind.spans]
  refine Nests.around (Nests.mono (Nests.around .nil ?_) ?_ le_rfl) sound.forward
  · exact within.2
  · omega
  all_goals simp

mutual

/-- The spans of a type nest within its node. -/
theorem typeExpr_nests : ∀ {t : Tree}, Sound t →
    Nests t.start.offset t.stop.offset (typeExpr source t).spans
  | .node kind role start stop children, sound => by
    have row := row_children sound
    unfold typeExpr
    rw [TypeExpr.spans]
    refine Nests.around ?_ sound.forward
    split
    · exact .nil
    · exact .nil
    · split
      · rename_i element found
        exact firstNamedType_nests row found
      · exact .nil
    · exact structFields_nests row
    · exact interfaceElements_nests [] row
    · exact .nil
    · exact .nil
    · exact .nil
    · exact .nil
    · exact .nil

theorem firstNamedType_nests {lo hi : Nat} : ∀ {ts : List Tree}, Row lo hi ts →
    ∀ {element : TypeExpr}, firstNamedType source ts = some element → Nests lo hi element.spans
  | [], _, _, found => by
    cases found
  | t :: ts, row, element, found => by
    have within := row.within t List.mem_cons_self
    rw [firstNamedType] at found
    split at found
    · cases found
      exact (typeExpr_nests (row.sound t List.mem_cons_self)).mono within.1 within.2
    · exact row.nests_tail (firstNamedType_nests row.tail found)

theorem roleType_nests {lo hi : Nat} : ∀ {ts : List Tree}, Row lo hi ts →
    ∀ {type : TypeExpr}, roleType source ts = some type →
      ∃ inner, ts.find? (·.role == some .type) = some inner ∧ type.span = inner.span ∧
        Nests inner.start.offset inner.stop.offset type.spans
  | [], _, _, found => by
    cases found
  | t :: ts, row, type, found => by
    rw [roleType] at found
    rw [List.find?_cons]
    split at found
    · rename_i role
      cases found
      exact ⟨t, by rw [role], typeExpr_span source t,
        typeExpr_nests (row.sound t List.mem_cons_self)⟩
    · rename_i role
      rw [Bool.not_eq_true] at role
      rw [role]
      exact roleType_nests row.tail found

theorem structFields_nests {lo hi : Nat} : ∀ {ts : List Tree}, Row lo hi ts →
    Nests lo hi (fieldSpans (structFields source ts))
  | [], _ => by
    rw [structFields, fieldSpans]
    exact .nil
  | t :: ts, row => by
    have within := row.within t List.mem_cons_self
    rw [structFields]
    split
    · exact (listFields_nests (row.sound t List.mem_cons_self)).mono within.1 within.2
    · exact row.nests_tail (structFields_nests row.tail)

theorem listFields_nests : ∀ {t : Tree}, Sound t →
    Nests t.start.offset t.stop.offset (fieldSpans (listFields source t))
  | .node _ _ _ _ children, sound => by
    rw [listFields]
    exact fieldDeclarations_nests [] (row_children sound)

theorem fieldDeclarations_nests {lo hi : Nat} (before : List Tree) : ∀ {ts : List Tree},
    Row lo hi ts → Nests lo hi (fieldSpans (fieldDeclarations source before ts))
  | [], _ => by
    rw [fieldDeclarations, fieldSpans]
    exact .nil
  | t :: ts, row => by
    have others := fieldDeclarations_nests (t :: before) row.tail
    rw [fieldDeclarations]
    split
    · rename_i field
      split
      · rename_i type found
        obtain ⟨inner, first, same, nests⟩ := fieldType_nests (row.sound t List.mem_cons_self) found
        rw [fieldSpans_cons]
        exact row.nests_append (fieldOf_nests (row.sound t List.mem_cons_self) (eq_of_beq field)
          first same nests _ _) others
      · exact row.nests_tail others
    · exact row.nests_tail others

theorem fieldType_nests : ∀ {t : Tree}, Sound t → ∀ {type : TypeExpr},
    fieldType source t = some type →
      ∃ inner, t.childInRole? .type = some inner ∧ type.span = inner.span ∧
        Nests inner.start.offset inner.stop.offset type.spans
  | .node _ _ _ _ children, sound, type, found => by
    rw [fieldType] at found
    exact roleType_nests (row_children sound) found

theorem interfaceElements_nests {lo hi : Nat} (before : List Tree) : ∀ {ts : List Tree},
    Row lo hi ts → Nests lo hi (fieldSpans (interfaceElements source before ts))
  | [], _ => by
    rw [interfaceElements, fieldSpans]
    exact .nil
  | t :: ts, row => by
    have sound := row.sound t List.mem_cons_self
    have others := interfaceElements_nests (t :: before) row.tail
    unfold interfaceElements
    split
    · split
      · rename_i name found
        rw [fieldSpans_cons]
        exact row.nests_append (methodOf_nests sound found _ _) others
      · exact row.nests_tail others
    · rw [fieldSpans_cons]
      refine row.nests_append ?_ others
      rw [fieldSpans, fieldSpans, List.append_nil]
      exact Nests.around (elementType_nests sound) sound.forward
    · exact row.nests_tail others

theorem elementType_nests : ∀ {t : Tree}, Sound t →
    Nests t.start.offset t.stop.offset (elementType source t).spans
  | .node kind role start stop children, sound => by
    have whole : Nests start.offset stop.offset
        (TypeExpr.mk ⟨start.offset, stop.offset⟩
          ((Node.node kind role start stop children).text source) (.other kind)).spans :=
      Nests.around .nil sound.forward
    rw [elementType]
    split
    · cases found : firstNamedType source children with
      | none => exact whole
      | some type => exact firstNamedType_nests (row_children sound) found
    · exact whole

end

/-! ### Declarations -/

/-- The spans that a node records as a spec, whatever its comments are. -/
def specSpans (source : String) (t : Tree) : List Span :=
  ((specOf? source t none none).map Spec.spans).getD []

/-- The spans that a node records as a declaration. -/
def declSpans (source : String) (t : Tree) : List Span :=
  match t.kind with
  | .functionDeclaration | .methodDeclaration =>
    t.span :: ((t.childInRole? .name).map (·.span)).toList
  | .typeDeclaration | .varDeclaration | .constDeclaration =>
    t.span :: ((t.childOfKind? .varSpecList).getD t).children.flatMap (specSpans source)
  | _ => []

/-- The spans that a node of a file records. -/
def topSpans (source : String) (t : Tree) : List Span :=
  match t.kind with
  | .packageClause => ((t.childOfKind? .packageIdentifier).map (·.span)).toList
  | .importDeclaration => (importDecl source t).spans
  | _ => declSpans source t

theorem declSpans_subset (t : Tree) : declSpans source t ⊆ topSpans source t := by
  unfold topSpans
  split
  · rename_i kind
    rw [declSpans, kind]
    exact List.nil_subset _
  · rename_i kind
    rw [declSpans, kind]
    exact List.nil_subset _
  · exact List.Subset.refl _

theorem specOf?_spans (t : Tree) (doc comment : Option CommentGroup) :
    ((specOf? source t doc comment).map Spec.spans).getD [] = specSpans source t := by
  unfold specSpans specOf?
  split
  · cases t.childInRole? .name with
    | none => rfl
    | some name => cases t.childInRole? .type <;> rfl
  · cases t.childInRole? .name with
    | none => rfl
    | some name => cases t.childInRole? .type <;> rfl
  all_goals rfl

theorem specsOf_spans (fallback : Option CommentGroup) (before ts : List Tree) :
    (specsOf source fallback before ts).flatMap Spec.spans = ts.flatMap (specSpans source) := by
  induction ts generalizing before with
  | nil => rfl
  | cons t ts ih =>
    have here : ((specOf? source t (leadingGroup source before t)
        ((trailingGroup source t ts).or fallback)).map Spec.spans).getD [] = specSpans source t :=
      specOf?_spans t _ _
    rw [specsOf, List.flatMap_cons, ← ih (t :: before), ← here]
    split
    · rename_i spec made
      rw [made]
      rfl
    · rename_i made
      rw [made]
      rfl

theorem genDecl_spans (word : GenWord) (before : List Tree) (t : Tree) (after : List Tree) :
    (Decl.gen (genDecl source word before t after)).spans =
      t.span :: ((t.childOfKind? .varSpecList).getD t).children.flatMap (specSpans source) := by
  rw [Decl.spans, genDecl, specsOf_spans]

theorem funcDecl_spans (t : Tree) (doc : Option CommentGroup) :
    (Decl.func (funcDecl source t doc)).spans ⊆
      ⟨0, 0⟩ :: t.span :: ((t.childInRole? .name).map (·.span)).toList := by
  rw [Decl.spans, funcDecl]
  cases t.childInRole? .name <;> simp

/-- The declarations of a file record what their nodes record, and perhaps the empty span at the
start of the file as the place of a name that is missing. -/
theorem declsOf_spans (before ts : List Tree) :
    (declsOf source before ts).flatMap Decl.spans ⊆ ⟨0, 0⟩ :: ts.flatMap (declSpans source) := by
  induction ts generalizing before with
  | nil => simp [declsOf]
  | cons t ts ih =>
    have others := ih (t :: before)
    have both : ∀ {here rest : List Span}, here ⊆ ⟨0, 0⟩ :: declSpans source t →
        rest ⊆ ⟨0, 0⟩ :: ts.flatMap (declSpans source) →
        here ++ rest ⊆ ⟨0, 0⟩ :: (t :: ts).flatMap (declSpans source) := by
      intro here rest first second
      simp only [List.flatMap_cons]
      intro s member
      have := @first s
      have := @second s
      simp only [List.mem_append, List.mem_cons] at *
      tauto
    unfold declsOf
    split
    · rename_i kind
      refine both ?_ others
      rw [declSpans, kind]
      exact funcDecl_spans t _
    · rename_i kind
      refine both ?_ others
      rw [declSpans, kind]
      exact funcDecl_spans t _
    · rename_i kind
      refine both ?_ others
      rw [genDecl_spans, declSpans, kind]
      exact List.subset_cons_self _ _
    · rename_i kind
      refine both ?_ others
      rw [genDecl_spans, declSpans, kind]
      exact List.subset_cons_self _ _
    · rename_i kind
      refine both ?_ others
      rw [genDecl_spans, declSpans, kind]
      exact List.subset_cons_self _ _
    · exact both (List.nil_subset _) others

/-- The spans of a spec nest within its node: its name and its type are different children. -/
theorem specSpans_nests {t : Tree} (sound : Sound t) :
    Nests t.start.offset t.stop.offset (specSpans source t) := by
  have row := row_children sound
  have typed : ∀ name type, t.childInRole? .name = some name → t.childInRole? .type = some type →
      Nests t.start.offset t.stop.offset (t.span :: name.span :: (typeExpr source type).spans) := by
    intro name type named typed
    have first : name ∈ t.children := List.mem_of_find?_eq_some named
    have second : type ∈ t.children := List.mem_of_find?_eq_some typed
    have differ : name ≠ type := by
      rintro rfl
      have role := List.find?_some named
      have role' := List.find?_some typed
      simp_all
    have inner : Nests type.start.offset type.stop.offset (typeExpr source type).spans :=
      typeExpr_nests (row.sound type second)
    have pair := row.nests_pair first second differ (.around .nil (row.forward first)) inner
    exact pair.around sound.forward
  have valued : Nests t.start.offset t.stop.offset
      (t.span :: (((t.childInRole? .type).map (typeExpr source)).map TypeExpr.spans).getD []) := by
    refine Nests.around ?_ sound.forward
    cases typed : t.childInRole? .type with
    | none => exact .nil
    | some type =>
      have member : type ∈ t.children := List.mem_of_find?_eq_some typed
      exact row.nests_of_mem member (typeExpr_nests (row.sound type member))
  unfold specSpans specOf?
  split
  · cases named : t.childInRole? .name with
    | none => exact .nil
    | some name =>
      cases found : t.childInRole? .type with
      | none => exact .nil
      | some type => exact typed name type named found
  · cases named : t.childInRole? .name with
    | none => exact .nil
    | some name =>
      cases found : t.childInRole? .type with
      | none => exact .nil
      | some type => exact typed name type named found
  · exact valued
  · exact valued
  · exact .nil

/-- Spans of the children of a node, or of those of its first child of some kind. -/
theorem holder_nests {t : Tree} (sound : Sound t) (kind : Kind) {spansOf : Tree → List Span}
    (each : ∀ c, Sound c → Nests c.start.offset c.stop.offset (spansOf c)) :
    Nests t.start.offset t.stop.offset
      (((t.childOfKind? kind).getD t).children.flatMap spansOf) := by
  have row := row_children sound
  cases found : t.childOfKind? kind with
  | none => exact row.nests_flatMap sound.forward fun c member => each c (row.sound c member)
  | some holder =>
    have member : holder ∈ t.children := List.mem_of_find?_eq_some found
    have sound' := row.sound holder member
    have row' := row_children sound'
    exact row.nests_of_mem member
      (row'.nests_flatMap sound'.forward fun c member => each c (row'.sound c member))

theorem declSpans_nests {t : Tree} (sound : Sound t) :
    Nests t.start.offset t.stop.offset (declSpans source t) := by
  have name : Nests t.start.offset t.stop.offset
      ((t.childInRole? .name).map (·.span)).toList := by
    cases named : t.childInRole? .name with
    | none => exact .nil
    | some name => exact child_nests sound (List.mem_of_find?_eq_some named)
  have specs : Nests t.start.offset t.stop.offset
      (((t.childOfKind? .varSpecList).getD t).children.flatMap (specSpans source)) :=
    holder_nests sound .varSpecList fun c => specSpans_nests
  unfold declSpans
  split
  · exact name.around sound.forward
  · exact name.around sound.forward
  · exact specs.around sound.forward
  · exact specs.around sound.forward
  · exact specs.around sound.forward
  · exact .nil

theorem importDecl_nests {t : Tree} (sound : Sound t) :
    Nests t.start.offset t.stop.offset (importDecl source t).spans := by
  have specs : Nests t.start.offset t.stop.offset
      (((t.childOfKind? .importSpecList).getD t).children.flatMap fun c => [c.span]) :=
    holder_nests sound .importSpecList fun c inner => Nests.around .nil inner.forward
  refine Nests.around (specs.subset ?_) sound.forward
  intro s member
  simp only [importDecl, importSpecs, List.map_map, List.mem_map, List.mem_filter] at member
  obtain ⟨spec, ⟨child, -⟩, rfl⟩ := member
  exact List.mem_flatMap.2 ⟨spec, child, List.mem_singleton_self _⟩

theorem topSpans_nests {t : Tree} (sound : Sound t) :
    Nests t.start.offset t.stop.offset (topSpans source t) := by
  unfold topSpans
  split
  · cases found : t.childOfKind? .packageIdentifier with
    | none => exact .nil
    | some name => exact child_nests sound (List.mem_of_find?_eq_some found)
  · exact importDecl_nests sound
  · exact declSpans_nests sound

theorem SourceUnit.source_ofTree {path : Path} {tree : Tree} {unit : SourceUnit}
    (built : SourceUnit.ofTree path source tree = .ok unit) : unit.source = source := by
  simp only [ofTree] at built
  split at built <;> cases built
  rfl

/-- A source file records the spans that the nodes of its tree record. -/
theorem SourceUnit.ofTree_spans {path : Path} {tree : Tree} {unit : SourceUnit}
    (built : SourceUnit.ofTree path source tree = .ok unit) :
    unit.spans ⊆ ⟨0, 0⟩ :: tree.children.flatMap (topSpans source) := by
  have recorded : ∀ {t : Tree}, t ∈ tree.children → topSpans source t ⊆
      ⟨0, 0⟩ :: tree.children.flatMap (topSpans source) :=
    fun member _ here => List.mem_cons_of_mem _ (List.mem_flatMap.2 ⟨_, member, here⟩)
  simp only [ofTree] at built
  split at built
  · cases built
  · rename_i name found
    cases built
    refine List.append_subset.2 ⟨List.cons_subset.2 ⟨?_, ?_⟩, ?_⟩
    · obtain ⟨clause, last, identifier⟩ := Option.bind_eq_some_iff.1 found
      obtain ⟨member, kind⟩ := List.mem_filter.1 (List.mem_of_getLast? last)
      apply recorded member
      rw [topSpans, eq_of_beq kind]
      simp [identifier]
    · intro s inside
      simp only [List.mem_flatMap, List.mem_map, List.mem_filter] at inside
      obtain ⟨_, ⟨decl, ⟨member, kind⟩, rfl⟩, part⟩ := inside
      apply recorded member
      rw [topSpans, eq_of_beq kind]
      exact part
    · intro s inside
      rcases List.mem_cons.1 (declsOf_spans [] tree.children inside) with rfl | part
      · exact List.mem_cons_self
      · obtain ⟨t, member, part⟩ := List.mem_flatMap.1 part
        exact recorded member (declSpans_subset t part)

/-- The spans that a source file records lie in the file and nest. -/
theorem SourceUnit.ofTree_nests {path : Path} {tree : Tree} {unit : SourceUnit} (sound : Sound tree)
    (built : SourceUnit.ofTree path source tree = .ok unit) :
    Nests 0 tree.stop.offset unit.spans := by
  have row := row_children sound
  have nests : Nests tree.start.offset tree.stop.offset
      (tree.children.flatMap (topSpans source)) :=
    row.nests_flatMap sound.forward fun t member => topSpans_nests (row.sound t member)
  exact nests.cons_zero.subset (ofTree_spans built)

end Marginalia.Go
