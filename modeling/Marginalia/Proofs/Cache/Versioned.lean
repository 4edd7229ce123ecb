/-
Module: Marginalia.Proofs.Cache.Versioned
Purpose: What a store of versioned values answers, and what holds of everything that it keeps.
Main exports:
  VersionStore.get?_put, VersionStore.get?_touch, VersionStore.load_cases,
  VersionStore.answer_load, VersionStore.get?_load, VersionStore.Holds,
  VersionStore.load_holds
-/
import Marginalia.Cache.Versioned
import Marginalia.Proofs.Dict

namespace Marginalia.VersionStore

variable {κ : Type} [Ord κ] {ν α ε : Type} [DecidableEq ν]

@[simp] theorem get?_empty (key : κ) (version : ν) :
    (empty : VersionStore κ ν α).get? key version = none := rfl

/-- Every value that the store answers with is as it should be for its key and version. -/
def Holds (s : VersionStore κ ν α) (good : κ → ν → α → Prop) : Prop :=
  ∀ key version value, s.get? key version = some value → good key version value

theorem holds_empty (good : κ → ν → α → Prop) : (empty : VersionStore κ ν α).Holds good := by
  intro key version value held
  cases held

variable [Std.TransOrd κ] [Std.LawfulEqOrd κ]

section Operations

variable [DecidableEq κ] (s : VersionStore κ ν α)

/-- A key has the value that was last put for it, under the version that it was put with. -/
theorem get?_put (key other : κ) (version version' : ν) (value : α) :
    (s.put key version value).get? other version' =
      if other = key then (if version = version' then some value else none)
      else s.get? other version' := by
  unfold get? slot? put
  rw [Dict.get?_insert]
  by_cases same : other = key
  · by_cases current : version = version'
    · simp [same, current]
    · simp [same, current]
  · simp [same]

/-- To make a key known changes no answer. -/
theorem get?_touch (key other : κ) (version : ν) :
    (s.touch key).get? other version = s.get? other version := by
  unfold get? slot? touch
  rw [Dict.get?_insert]
  by_cases same : other = key
  · subst same
    cases s.slots.get? other with
    | none => simp
    | some slot => simp
  · simp [same]

end Operations

/-- The three ways of a load: the store has the value, or it is computed and put, or its computation
fails and the key is made known. -/
theorem load_cases (s : VersionStore κ ν α) (key : κ) (version : ν)
    (compute : Unit → Except ε α) :
    (∃ value, s.get? key version = some value ∧
      s.load key version compute = (⟨.ok value, false⟩, s)) ∨
    (s.get? key version = none ∧ ∃ value, compute () = .ok value ∧
      s.load key version compute = (⟨.ok value, true⟩, s.put key version value)) ∨
    (s.get? key version = none ∧ ∃ e, compute () = .error e ∧
      s.load key version compute = (⟨.error e, true⟩, s.touch key)) := by
  unfold load loadM
  cases held : s.get? key version with
  | some value => exact .inl ⟨value, rfl, rfl⟩
  | none =>
    cases result : compute () with
    | ok value => exact .inr (.inl ⟨rfl, value, rfl, rfl⟩)
    | error e => exact .inr (.inr ⟨rfl, e, rfl, rfl⟩)

/-- The answer of a load depends on what is kept for its key alone. -/
theorem answer_load (s : VersionStore κ ν α) (key : κ) (version : ν)
    (compute : Unit → Except ε α) :
    (s.load key version compute).1.answer =
      match s.get? key version with
      | some value => .ok value
      | none => compute () := by
  rcases load_cases s key version compute with
    ⟨value, held, loaded⟩ | ⟨missing, value, result, loaded⟩ | ⟨missing, e, result, loaded⟩
  · rw [loaded, held]
  · rw [loaded, missing, result]
  · rw [loaded, missing, result]

variable [DecidableEq κ]

/-- A load for one key leaves what is kept for the others. -/
theorem get?_load (s : VersionStore κ ν α) {key other : κ} (differ : other ≠ key)
    (version version' : ν) (compute : Unit → Except ε α) :
    (s.load key version compute).2.get? other version' = s.get? other version' := by
  rcases load_cases s key version compute with
    ⟨value, -, loaded⟩ | ⟨-, value, -, loaded⟩ | ⟨-, e, -, loaded⟩
  · rw [loaded]
  · rw [loaded, get?_put, if_neg differ]
  · rw [loaded, get?_touch]

/-- A load of good values from a store of good values: the answer is the computed one or a good
one, and the store stays good. -/
theorem load_holds {s : VersionStore κ ν α} {good : κ → ν → α → Prop} (holds : s.Holds good)
    {key : κ} {version : ν} (compute : Unit → Except ε α)
    (computed : ∀ value, compute () = .ok value → good key version value) :
    ((s.load key version compute).1.answer = compute () ∨
      ∃ value, good key version value ∧ (s.load key version compute).1.answer = .ok value) ∧
    (s.load key version compute).2.Holds good := by
  rcases load_cases s key version compute with
    ⟨value, held, loaded⟩ | ⟨-, value, result, loaded⟩ | ⟨-, e, result, loaded⟩
  · rw [loaded]
    exact ⟨.inr ⟨value, holds key version value held, rfl⟩, holds⟩
  · rw [loaded, result]
    refine ⟨.inl rfl, fun other version' value' held => ?_⟩
    rw [get?_put] at held
    split at held
    · rename_i same
      split at held
      · rename_i current
        obtain rfl := Option.some.inj held
        exact same ▸ current ▸ computed value result
      · cases held
    · exact holds other version' value' held
  · rw [loaded, result]
    refine ⟨.inl rfl, fun other version' value' held => ?_⟩
    rw [get?_touch] at held
    exact holds other version' value' held

end Marginalia.VersionStore
