/-
Module: Marginalia.Proofs.Go.Tree
Purpose: What placing a tree and putting comments into it leave as it was.
Main exports:
  Node.children_locate, Tree.children_attach, Tree.mem_weave
-/
import Marginalia.Go.Tree

namespace Marginalia.Go

/-! ### Places -/

namespace Node

variable {Place Other : Type} (start stop : Place → Other)

theorem locateAll_eq_map (ts : List (Node Place)) :
    locateAll start stop ts = ts.map (locate start stop) := by
  induction ts with
  | nil => rfl
  | cons t ts ih => rw [locateAll, ih, List.map_cons]

theorem kind_locate (t : Node Place) : (t.locate start stop).kind = t.kind := by
  cases t
  rfl

theorem role_locate (t : Node Place) : (t.locate start stop).role = t.role := by
  cases t
  rfl

theorem start_locate (t : Node Place) : (t.locate start stop).start = start t.start := by
  cases t
  rfl

theorem stop_locate (t : Node Place) : (t.locate start stop).stop = stop t.stop := by
  cases t
  rfl

theorem children_locate (t : Node Place) :
    (t.locate start stop).children = t.children.map (locate start stop) := by
  cases t
  exact locateAll_eq_map _ _ _

end Node

/-! ### Comments -/

namespace Tree

variable {comments : List Lexeme}

theorem kind_attach (comments : List Lexeme) (t : Tree) : (attach comments t).kind = t.kind := by
  cases t
  rfl

theorem role_attach (comments : List Lexeme) (t : Tree) : (attach comments t).role = t.role := by
  cases t
  rfl

theorem start_attach (comments : List Lexeme) (t : Tree) :
    (attach comments t).start = t.start := by
  cases t
  rfl

theorem stop_attach (comments : List Lexeme) (t : Tree) : (attach comments t).stop = t.stop := by
  cases t
  rfl

@[simp]
theorem span_attach (t : Tree) : (attach comments t).span = t.span := by
  cases t
  rfl

theorem children_attach (comments : List Lexeme) (t : Tree) :
    (attach comments t).children = weave comments t.children := by
  cases t
  rfl

theorem mem_weave {x : Tree} {ts : List Tree} (member : x ∈ weave comments ts) :
    (∃ l, x = ofComment l) ∨ ∃ t ∈ ts, ∃ inside, x = attach inside t := by
  induction ts generalizing comments with
  | nil =>
    obtain ⟨l, -, rfl⟩ := List.mem_map.1 member
    exact .inl ⟨l, rfl⟩
  | cons t ts ih =>
    rw [weave] at member
    rcases List.mem_append.1 member with before | later
    · obtain ⟨l, -, rfl⟩ := List.mem_map.1 before
      exact .inl ⟨l, rfl⟩
    · rcases List.mem_cons.1 later with rfl | later
      · exact .inr ⟨t, List.mem_cons_self, _, rfl⟩
      · rcases ih later with comment | ⟨u, below, inside, same⟩
        · exact .inl comment
        · exact .inr ⟨u, List.mem_cons_of_mem _ below, inside, same⟩

end Tree
end Marginalia.Go
