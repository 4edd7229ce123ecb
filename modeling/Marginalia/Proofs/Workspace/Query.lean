/-
Module: Marginalia.Proofs.Workspace.Query
Purpose: Rules for what questions answer while they keep an invariant of the memory.
Main exports:
  Query.outcome, Query.Yields, Query.yields_pure, Query.Yields.bind, sourceUnit_eq_ok_iff,
  UnitFrom, KeepsUnits, yields_parseBytes, Workspace.forget
-/
import Marginalia.Proofs.Cache.Versioned
import Marginalia.Workspace.State

namespace Marginalia

open Go (SourceUnit)

namespace Query

variable {α β : Type} {w : World} {keeps : Memory → Prop}

/-- The answer of a question about a world, and the memory after it. -/
def outcome (q : Query α) (w : World) (m : Memory) : α × Memory :=
  (q.run w).run m

section Outcome

variable (m : Memory)

theorem outcome_bind (q : Query α) (next : α → Query β) :
    outcome (q >>= next) w m = outcome (next (outcome q w m).1) w (outcome q w m).2 := rfl

theorem outcome_read : outcome (read : Query World) w m = (w, m) := rfl

theorem outcome_get : outcome (get : Query Memory) w m = (m, m) := rfl

theorem outcome_readFile (p : Path) : outcome (readFile p) w m = (w.files.read p, m) := rfl

theorem outcome_parseBytes (p : Path) (content : Bytes) :
    outcome (parseBytes p content) w m =
      let loaded := m.caches.units.load (Caches.unitKey p) content fun _ => sourceUnit p content
      (loaded.1.answer, { m with caches := { m.caches with units := loaded.2 } }) := rfl

end Outcome

/-- A question keeps an invariant of the memory, and its answers are as they should be. -/
def Yields (w : World) (keeps : Memory → Prop) (q : Query α) (good : α → Prop) : Prop :=
  ∀ m, keeps m → good (outcome q w m).1 ∧ keeps (outcome q w m).2

theorem yields_pure {good : α → Prop} {a : α} (holds : good a) :
    Yields w keeps (pure a) good :=
  fun _ kept => ⟨holds, kept⟩

theorem Yields.bind {q : Query α} {next : α → Query β} {good : α → Prop} {fine : β → Prop}
    (first : Yields w keeps q good) (rest : ∀ a, good a → Yields w keeps (next a) fine) :
    Yields w keeps (q >>= next) fine := by
  intro m kept
  obtain ⟨holds, still⟩ := first m kept
  exact rest _ holds _ still

theorem Yields.mono {q : Query α} {good fine : α → Prop} (yields : Yields w keeps q good)
    (imp : ∀ a, good a → fine a) : Yields w keeps q fine := by
  intro m kept
  obtain ⟨holds, still⟩ := yields m kept
  exact ⟨imp _ holds, still⟩

/-- What is asked about is the world. -/
theorem yields_read : Yields w keeps (read : Query World) (w = ·) :=
  fun _ kept => ⟨rfl, kept⟩

/-- The memory that is looked at satisfies the invariant. -/
theorem yields_get : Yields w keeps (get : Query Memory) keeps :=
  fun _ kept => ⟨kept, kept⟩

theorem yields_modify {change : Memory → Memory} (invariant : ∀ m, keeps m → keeps (change m)) :
    Yields w keeps (modify change : Query PUnit) fun _ => True :=
  fun m kept => ⟨trivial, invariant m kept⟩

theorem yields_readFile (p : Path) : Yields w keeps (readFile p) (w.files.read p = ·) :=
  fun _ kept => ⟨rfl, kept⟩

theorem yields_findM? {test : α → Query Bool} {plain : α → Bool} {l : List α}
    (tests : ∀ a ∈ l, Yields w keeps (test a) (· = plain a)) :
    Yields w keeps (l.findM? test) (· = l.find? plain) := by
  induction l with
  | nil => exact yields_pure rfl
  | cons a l ih =>
    obtain ⟨first, others⟩ := List.forall_mem_cons.1 tests
    rw [List.findM?, List.find?_cons]
    refine first.bind ?_
    rintro _ rfl
    cases plain a with
    | true => exact yields_pure rfl
    | false => exact ih others

end Query

/-! ### Source files -/

theorem sourceUnit_eq_ok_iff {p : Path} {content : Bytes} {unit : SourceUnit} :
    sourceUnit p content = .ok unit ↔
      ∃ source, Utf8.toString content = .ok source ∧ SourceUnit.parse p source = .ok unit := by
  unfold sourceUnit
  cases Utf8.toString content with
  | error fault => simp
  | ok source => cases parsed : SourceUnit.parse p source <;> simp [parsed]

/-- A source file as it is read from a content, under one of some spellings of its path. -/
def UnitFrom (spellings : Set Path) (key : List String) (content : Bytes) (unit : SourceUnit) :
    Prop :=
  ∃ q ∈ spellings, q.components = key ∧ sourceUnit q content = .ok unit

/-- Source files may be kept in a memory without harm to an invariant, and the invariant says where
those that are kept come from. -/
structure KeepsUnits (spellings : Set Path) (keeps : Memory → Prop) : Prop where
  units : ∀ m, keeps m → m.caches.units.Holds (UnitFrom spellings)
  exchange : ∀ m units, keeps m → units.Holds (UnitFrom spellings) →
    keeps { m with caches := { m.caches with units } }

/-- Reading a source file through the cache answers as reading it anew does, under some spelling of
the path. -/
theorem yields_parseBytes {spellings : Set Path} {w : World} {keeps : Memory → Prop}
    (free : KeepsUnits spellings keeps) {p : Path} (spelled : p ∈ spellings) (content : Bytes) :
    Query.Yields w keeps (parseBytes p content) fun answer =>
      ∃ q ∈ spellings, q.components = p.components ∧ answer = sourceUnit q content := by
  intro m kept
  have computed : ∀ unit, sourceUnit p content = .ok unit →
      UnitFrom spellings (Caches.unitKey p) content unit :=
    fun unit read => ⟨p, spelled, rfl, read⟩
  obtain ⟨answer, holds⟩ :=
    VersionStore.load_holds (free.units m kept) (fun _ => sourceUnit p content) computed
  refine ⟨?_, free.exchange m _ kept holds⟩
  rcases answer with anew | ⟨unit, ⟨q, member, same, read⟩, answer⟩
  · exact ⟨p, spelled, rfl, anew⟩
  · exact ⟨q, member, same, answer.trans read.symm⟩

/-- The workspace with nothing remembered. -/
def Workspace.forget (w : Workspace) : Workspace :=
  { w with memory := {} }

end Marginalia
