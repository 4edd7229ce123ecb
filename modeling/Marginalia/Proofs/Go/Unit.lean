/-
Module: Marginalia.Proofs.Go.Unit
Purpose: The imports of a source file, read off the words of its header.
Main exports:
  Tree.filter_weave, Tree.sightless_importsOf, Tree.sightless_importDecl, SourceUnit.ofTree_attach
-/
import Marginalia.Go.Build
import Marginalia.Proofs.Go.SourceFile
import Marginalia.Proofs.Go.Tree

namespace Marginalia.Go

/-! ### Comments in trees

What a file imports is read off nodes by their kinds and roles, which comments between and inside
them do not have.
-/

namespace Tree

variable {comments : List Lexeme}

@[simp]
theorem text_attach (source : String) (t : Tree) :
    (attach comments t).text source = t.text source := by
  cases t
  rfl

/-- A test that comments fail and that does not look below a node. -/
structure Blind (p : Tree → Bool) : Prop where
  comment : ∀ l, p (ofComment l) = false
  attach : ∀ comments t, p (attach comments t) = p t

theorem blind_kind {kind : Kind} (other : kind ≠ .comment) :
    Blind fun t => t.kind == kind := by
  refine ⟨fun l => ?_, fun comments t => by rw [kind_attach]⟩
  simpa [ofComment, Node.kind] using other.symm

theorem blind_role (role : Role) : Blind fun t => t.role == some role :=
  ⟨fun _ => rfl, fun comments t => by rw [role_attach]⟩

/-- The nodes that pass a test are those that were there without comments. -/
theorem filter_weave {p : Tree → Bool} (blind : Blind p) (comments : List Lexeme) (ts : List Tree) :
    List.Forall₂ (fun t' t => ∃ inner, t' = attach inner t)
      ((weave comments ts).filter p) (ts.filter p) := by
  have dropped (comments : List Lexeme) : (comments.map ofComment).filter p = [] := by
    rw [List.filter_eq_nil_iff]
    intro t member
    obtain ⟨l, -, rfl⟩ := List.mem_map.1 member
    simp [blind.comment]
  induction ts generalizing comments with
  | nil =>
    rw [weave, dropped]
    exact .nil
  | cons t ts ih =>
    rw [weave]
    generalize comments.span (·.stop.offset ≤ t.start.offset) = parts
    obtain ⟨before, others⟩ := parts
    dsimp only
    generalize others.span (·.start.offset < t.stop.offset) = parts
    obtain ⟨inside, after⟩ := parts
    dsimp only
    rw [List.filter_append, dropped, List.nil_append, List.filter_cons, List.filter_cons,
      blind.attach]
    split
    · exact .cons ⟨inside, rfl⟩ (ih after)
    · exact ih after

/-- A function of nodes that does not see comments. -/
def Sightless {α : Type} (f : Tree → α) : Prop :=
  ∀ comments t, f (attach comments t) = f t

theorem map_filter_weave {α : Type} {p : Tree → Bool} (blind : Blind p) {f : Tree → α}
    (sightless : Sightless f) (comments : List Lexeme) (ts : List Tree) :
    ((weave comments ts).filter p).map f = (ts.filter p).map f := by
  have pairs := filter_weave blind comments ts
  generalize (weave comments ts).filter p = woven at pairs
  generalize ts.filter p = plain at pairs
  induction pairs with
  | nil => rfl
  | cons pair _ ih =>
    obtain ⟨inner, rfl⟩ := pair
    rw [List.map_cons, List.map_cons, ih, sightless]

/-- The first node that passes a test is the one that was first without comments. -/
theorem find?_weave {p : Tree → Bool} (blind : Blind p) (comments : List Lexeme) (ts : List Tree) :
    ((weave comments ts).find? p = none ∧ ts.find? p = none) ∨
      ∃ t inner, (weave comments ts).find? p = some (attach inner t) ∧ ts.find? p = some t := by
  have pairs := filter_weave blind comments ts
  rw [← List.head?_filter, ← List.head?_filter]
  generalize (weave comments ts).filter p = woven at pairs
  generalize ts.filter p = plain at pairs
  cases pairs with
  | nil => exact .inl ⟨rfl, rfl⟩
  | cons pair _ =>
    obtain ⟨inner, rfl⟩ := pair
    exact .inr ⟨_, inner, rfl, rfl⟩

theorem childInRole?_attach {α : Type} {f : Tree → α} (sightless : Sightless f) (role : Role)
    (comments : List Lexeme) (t : Tree) :
    ((attach comments t).childInRole? role).map f = (t.childInRole? role).map f := by
  unfold Node.childInRole?
  rw [children_attach]
  rcases find?_weave (blind_role role) comments t.children with ⟨woven, plain⟩ |
    ⟨child, inner, woven, plain⟩
  · rw [woven, plain]
  · rw [woven, plain, Option.map_some, Option.map_some, sightless]

theorem childOfKind?_attach {kind : Kind} (other : kind ≠ .comment) (comments : List Lexeme)
    (t : Tree) :
    ((attach comments t).childOfKind? kind = none ∧ t.childOfKind? kind = none) ∨
      ∃ child inner, (attach comments t).childOfKind? kind = some (attach inner child) ∧
        t.childOfKind? kind = some child := by
  unfold Node.childOfKind?
  rw [children_attach]
  exact find?_weave (blind_kind other) comments t.children

theorem sightless_text (source : String) : Sightless (Node.text source) :=
  fun _ t => text_attach source t

theorem sightless_specPath (source : String) : Sightless (specPath source) := by
  intro comments t
  have quoted : Sightless fun t => unquote (Node.text source t) :=
    fun comments t => congrArg unquote (text_attach source t)
  exact congrArg (Option.getD · "") (childInRole?_attach quoted .path comments t)

theorem map_importSpecs_attach {α : Type} {f : Tree → α} (sightless : Sightless f)
    (comments : List Lexeme) (t : Tree) :
    (importSpecs (attach comments t)).map f = (importSpecs t).map f := by
  unfold importSpecs
  rcases childOfKind?_attach (show Kind.importSpecList ≠ .comment by decide) comments t with
    ⟨woven, plain⟩ | ⟨list, inner, woven, plain⟩
  · rw [woven, plain]
    simp only [Option.getD_none, children_attach]
    exact map_filter_weave (blind_kind (by decide)) sightless _ _
  · rw [woven, plain]
    simp only [Option.getD_some, children_attach]
    exact map_filter_weave (blind_kind (by decide)) sightless _ _

theorem sightless_importsOf (source : String) : Sightless (importsOf source) := by
  intro comments t
  refine map_importSpecs_attach ?_ comments t
  intro comments spec
  simp only [childInRole?_attach (sightless_text source), sightless_specPath source comments spec]

theorem sightless_importDecl (source : String) : Sightless (importDecl source) := by
  intro comments t
  have specs := map_importSpecs_attach (f := fun spec => (spec.span, specPath source spec))
    (fun comments spec => Prod.ext (span_attach spec) (sightless_specPath source comments spec))
    comments t
  unfold importDecl
  rw [span_attach, specs]
  rcases childOfKind?_attach (show Kind.importSpecList ≠ .comment by decide) comments t with
    ⟨woven, plain⟩ | ⟨list, inner, woven, plain⟩
  · rw [woven, plain]
  · rw [woven, plain]
    rcases childOfKind?_attach (show Kind.mark .parenR ≠ .comment by decide) inner list with
      ⟨woven, plain⟩ | ⟨paren, inner', woven, plain⟩
    · simp [woven, plain]
    · simp [woven, plain, start_attach]

end Tree

/-! ### The declarations of a file -/

/-- What is read off a tree with a package clause, apart from its comments. -/
theorem SourceUnit.ofTree_attach (path : Path) (source : String) (comments : List Lexeme)
    (first last : Point) {trees : List Tree} {id : Tree}
    (clause : (trees.filter (·.kind == .packageClause)).getLast?.bind
      (·.childOfKind? .packageIdentifier) = some id) :
    ∃ unit, SourceUnit.ofTree path source
        (Tree.attach comments (.node .sourceFile none first last trees)) = .ok unit ∧
      unit.path = path ∧ unit.source = source ∧ unit.packageSpan = id.span ∧
      unit.imports = (trees.filter (·.kind == .importDeclaration)).flatMap (importsOf source) ∧
      unit.importDecls = (trees.filter (·.kind == .importDeclaration)).map (importDecl source) := by
  have found : ∃ inner,
      ((Tree.weave comments trees).filter (·.kind == .packageClause)).getLast?.bind
        (·.childOfKind? .packageIdentifier) = some (Tree.attach inner id) := by
    obtain ⟨node, last, child⟩ := Option.bind_eq_some_iff.1 clause
    have pairs := List.forall₂_reverse_iff.2
      (Tree.filter_weave (Tree.blind_kind (show Kind.packageClause ≠ .comment by decide))
        comments trees)
    rw [← List.head?_reverse] at last
    rw [← List.head?_reverse]
    generalize ((Tree.weave comments trees).filter (·.kind == .packageClause)).reverse = woven
      at pairs ⊢
    generalize (trees.filter (·.kind == .packageClause)).reverse = plain at pairs last
    cases pairs with
    | nil => cases last
    | cons pair _ =>
      cases last
      obtain ⟨inner, rfl⟩ := pair
      rcases Tree.childOfKind?_attach (show Kind.packageIdentifier ≠ .comment by decide) inner
        node with ⟨-, plain⟩ | ⟨id', inner', woven, plain⟩
      · rw [child] at plain
        cases plain
      · rw [child] at plain
        cases plain
        exact ⟨inner', woven⟩
  obtain ⟨inner, found⟩ := found
  simp only [SourceUnit.ofTree, Tree.attach, Node.children, found]
  refine ⟨_, rfl, rfl, rfl, Tree.span_attach id, ?_, ?_⟩
  · have same := Tree.map_filter_weave
      (Tree.blind_kind (show Kind.importDeclaration ≠ .comment by decide))
      (Tree.sightless_importsOf source) comments trees
    simpa [List.flatMap] using congrArg List.flatten same
  · exact Tree.map_filter_weave (Tree.blind_kind (by decide)) (Tree.sightless_importDecl source) _ _

end Marginalia.Go
