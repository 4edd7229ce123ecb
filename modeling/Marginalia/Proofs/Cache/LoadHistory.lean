/-
Module: Marginalia.Proofs.Cache.LoadHistory
Purpose: What a store answers after any calls, told from the loads that ran their computations.
Main exports:
  VersionStore.loadM_of_held, VersionStore.loadM_of_missing, VersionStore.Call,
  VersionStore.after, VersionStore.Latest, VersionStore.get?_after_iff,
  VersionStore.answers_latest
-/
import Marginalia.Proofs.Cache.Versioned

namespace Marginalia.VersionStore

variable {κ : Type} [Ord κ] [Std.TransOrd κ] [Std.LawfulEqOrd κ] {ν α ε : Type} [DecidableEq ν]

/-! ### Whether a computation runs

A load takes its computation as an action. The two laws hold in every monad, so they tell which
effects a load has: none of them, or those of one run.
-/

/-- The store after a computation for a key. -/
def keep (s : VersionStore κ ν α) (key : κ) (version : ν) : Except ε α → VersionStore κ ν α
  | .ok value => s.put key version value
  | .error _ => s.touch key

section Effects

variable {m : Type → Type} [Monad m] {s : VersionStore κ ν α} {key : κ} {version : ν}

/-- A value that the store has is answered without a run of the computation. -/
theorem loadM_of_held {value : α} (held : s.get? key version = some value)
    (compute : Unit → m (Except ε α)) :
    s.loadM key version compute = pure (⟨.ok value, false⟩, s) := by
  unfold loadM
  rw [held]

/-- Otherwise the computation runs once, and its outcome is answered and kept. -/
theorem loadM_of_missing [LawfulMonad m] (missing : s.get? key version = none)
    (compute : Unit → m (Except ε α)) :
    s.loadM key version compute =
      (fun outcome => (⟨outcome, true⟩, s.keep key version outcome)) <$> compute () := by
  unfold loadM
  rw [missing, map_eq_pure_bind]
  apply bind_congr
  intro outcome
  cases outcome with
  | ok value => rfl
  | error e => rfl

end Effects

/-- A computation that counts its runs, with the same outcome each time. -/
def counted (outcome : Except ε α) (_ : Unit) : StateM Nat (Except ε α) := do
  modify (· + 1)
  return outcome

/-- A load of a computation that counts its runs: what it gives, the store after it, and how often
the computation ran. -/
def loadCounted (s : VersionStore κ ν α) (key : κ) (version : ν) (outcome : Except ε α) :
    (Loaded ε α × VersionStore κ ν α) × Nat :=
  Id.run ((s.loadM key version (counted outcome)).run 0)

theorem loadCounted_of_held {s : VersionStore κ ν α} {key : κ} {version : ν} {value : α}
    (held : s.get? key version = some value) (outcome : Except ε α) :
    s.loadCounted key version outcome = ((⟨.ok value, false⟩, s), 0) := by
  unfold loadCounted
  rw [loadM_of_held held]
  rfl

theorem loadCounted_of_missing {s : VersionStore κ ν α} {key : κ} {version : ν}
    (missing : s.get? key version = none) (outcome : Except ε α) :
    s.loadCounted key version outcome = ((⟨outcome, true⟩, s.keep key version outcome), 1) := by
  unfold loadCounted
  rw [loadM_of_missing missing]
  rfl

/-- To count the runs changes nothing of what a load gives. -/
theorem load_eq_loadCounted (s : VersionStore κ ν α) (key : κ) (version : ν)
    (outcome : Except ε α) :
    s.load key version (fun _ => outcome) = (s.loadCounted key version outcome).1 := by
  unfold load
  cases held : s.get? key version with
  | some value =>
    rw [loadCounted_of_held held, loadM_of_held held]
    rfl
  | none =>
    rw [loadCounted_of_missing held, loadM_of_missing held]
    rfl

/-! ### Histories of calls -/

/-- A call to a store. A load comes with the outcome that its computation has if it runs. -/
inductive Call (κ ν ε α : Type) where
  | load (key : κ) (version : ν) (outcome : Except ε α)
  | get (key : κ) (version : ν)

/-- The store after a call; to look a value up changes nothing. -/
def step (s : VersionStore κ ν α) : Call κ ν ε α → VersionStore κ ν α
  | .load key version outcome => (s.load key version fun _ => outcome).2
  | .get _ _ => s

/-- The store after calls that start from an empty one. -/
def after (calls : List (Call κ ν ε α)) : VersionStore κ ν α :=
  calls.foldl step empty

theorem after_append (calls : List (Call κ ν ε α)) (call : Call κ ν ε α) :
    after (calls ++ [call]) = (after calls).step call := by
  simp [after]

/-- After earlier calls, a load runs its computation. -/
def Runs (earlier : List (Call κ ν ε α)) (key : κ) (version : ν) (outcome : Except ε α) : Prop :=
  0 < ((after earlier).loadCounted key version outcome).2

/-- Of the loads of a key that ran their computations with success, the most recent one was for a
version and produced a value. -/
def Latest (calls : List (Call κ ν ε α)) (key : κ) (version : ν) (value : α) : Prop :=
  ∃ earlier later, calls = earlier ++ .load key version (.ok value) :: later ∧
    Runs earlier key version (.ok value) ∧
    ∀ between version' value', between ++ [.load key version' (.ok value')] <+: later →
      ¬Runs (earlier ++ .load key version (.ok value) :: between) key version' (.ok value')

/-- A load runs its computation exactly when the store has nothing for it. -/
theorem runs_iff {earlier : List (Call κ ν ε α)} {key : κ} {version : ν} {outcome : Except ε α} :
    Runs earlier key version outcome ↔ (after earlier).get? key version = none := by
  unfold Runs
  cases held : (after earlier).get? key version with
  | some value => simp [loadCounted_of_held held]
  | none => simp [loadCounted_of_missing held]

/-- One more call is the latest of its key if it is a load that runs its computation with success;
all other calls leave the latest ones as they are. -/
theorem latest_append_iff {calls : List (Call κ ν ε α)} {call : Call κ ν ε α} {key : κ}
    {version : ν} {value : α} :
    Latest (calls ++ [call]) key version value ↔
      (call = .load key version (.ok value) ∧ Runs calls key version (.ok value)) ∨
      ((∀ version' value', call = .load key version' (.ok value') →
          ¬Runs calls key version' (.ok value')) ∧ Latest calls key version value) := by
  constructor
  · rintro ⟨earlier, later, split, ran, others⟩
    -- the new call is the load itself, or it comes after the load
    rcases List.eq_nil_or_concat later with rfl | ⟨later, last, rfl⟩
    · obtain ⟨rfl, same⟩ := List.append_inj' split rfl
      exact Or.inl ⟨List.singleton_inj.1 same, ran⟩
    · rw [List.concat_eq_append, ← List.cons_append, ← List.append_assoc] at split
      obtain ⟨rfl, same⟩ := List.append_inj' split rfl
      obtain rfl := List.singleton_inj.1 same
      refine Or.inr ⟨?_, earlier, later, rfl, ran, ?_⟩
      · rintro version' value' rfl
        exact others later version' value' (by simp)
      · intro between version' value' within
        exact others between version' value' (within.trans (by simp))
  · rintro (⟨rfl, ran⟩ | ⟨other, earlier, later, rfl, ran, others⟩)
    · refine ⟨calls, [], rfl, ran, ?_⟩
      intro between version' value' within
      simp at within
    · refine ⟨earlier, later ++ [call], by simp, ran, ?_⟩
      intro between version' value' within
      rcases List.prefix_concat_iff.1 within with whole | before
      · obtain ⟨rfl, same⟩ := List.append_inj' whole rfl
        exact other version' value' (List.singleton_inj.1 same).symm
      · exact others between version' value' before

/-! ### What the store answers -/

variable [DecidableEq κ]

/-- A computation that fails changes no answer. -/
theorem get?_step_error (s : VersionStore κ ν α) (key other : κ) (version version' : ν) (e : ε) :
    (s.step (.load key version (.error e) : Call κ ν ε α)).get? other version' =
      s.get? other version' := by
  rw [step, load_eq_loadCounted]
  cases held : s.get? key version with
  | some value => rw [loadCounted_of_held held]
  | none =>
    rw [loadCounted_of_missing held]
    exact get?_touch s key other version'

/-- A store answers with the value of the latest load that ran with success, for its version. -/
theorem get?_after_iff {calls : List (Call κ ν ε α)} {key : κ} {version : ν} {value : α} :
    (after calls).get? key version = some value ↔ Latest calls key version value := by
  induction calls using List.reverseRecOn generalizing key version value with
  | nil =>
    have empty : ¬Latest ([] : List (Call κ ν ε α)) key version value := by
      rintro ⟨earlier, later, split, -⟩
      simp at split
    simpa [after] using empty
  | append_singleton calls call ih =>
    rw [after_append, latest_append_iff, ← ih]
    cases call with
    | get key' version' => simp [step]
    | load key' version' outcome =>
      simp only [runs_iff]
      cases outcome with
      | error e =>
        rw [get?_step_error]
        simp
      | ok value' =>
        cases held : (after calls).get? key' version' with
        | some hit =>
          -- the computation does not run, so the new call is not the latest of any key
          have hits : (after calls).step (.load key' version' (.ok value') : Call κ ν ε α) =
              after calls := by
            rw [step, load_eq_loadCounted, loadCounted_of_held held]
          rw [hits]
          grind
        | none =>
          have put : (after calls).step (.load key' version' (.ok value') : Call κ ν ε α) =
              (after calls).put key' version' value' := by
            rw [step, load_eq_loadCounted, loadCounted_of_missing held]
            rfl
          rw [put, get?_put]
          grind

/-- After any calls, a look-up answers with the value of the latest load that ran with success, if
it was for the version; a load answers with that value and does not run its computation, or runs it
once; and a load whose computation fails changes the answer to no look-up. -/
theorem answers_latest (calls : List (Call κ ν ε α)) (key : κ) (version : ν) :
    (∀ value, (after calls).get? key version = some value ↔ Latest calls key version value) ∧
    (∀ value (outcome : Except ε α), Latest calls key version value →
      (after calls).loadCounted key version outcome = ((⟨.ok value, false⟩, after calls), 0)) ∧
    (∀ outcome : Except ε α, (∀ value, ¬Latest calls key version value) →
      (after calls).loadCounted key version outcome =
        ((⟨outcome, true⟩, (after calls).keep key version outcome), 1)) ∧
    ∀ (e : ε) (other : κ) (version' : ν),
      (after (calls ++ [.load key version (.error e)])).get? other version' =
        (after calls).get? other version' := by
  refine ⟨fun value => get?_after_iff, ?_, ?_, ?_⟩
  · intro value outcome latest
    exact loadCounted_of_held (get?_after_iff.2 latest) outcome
  · intro outcome missing
    apply loadCounted_of_missing
    apply Option.eq_none_iff_forall_ne_some.2
    intro value held
    exact missing value (get?_after_iff.1 held)
  · intro e other version'
    rw [after_append, get?_step_error]

/-- A value that was computed once stays through a hit, a failed load of another version and a load
of another key, and is lost to the next successful one. -/
theorem answers_latest_kept :
    let kept : List (Call String Nat String String) :=
      [.load "k" 1 (.ok "a"), .load "k" 1 (.ok "b"), .load "k" 2 (.error "e"), .get "k" 1,
        .load "l" 2 (.ok "c")]
    Latest kept "k" 1 "a" ∧
      (after kept).loadCounted "k" 1 (.ok "d" : Except String String) =
        ((⟨.ok "a", false⟩, after kept), 0) ∧
      ¬Latest (kept ++ [.load "k" 2 (.ok "d")]) "k" 1 "a" := by
  intro kept
  have latest : Latest kept "k" 1 "a" := ((answers_latest kept "k" 1).1 "a").1 (by decide)
  refine ⟨latest, (answers_latest kept "k" 1).2.1 "a" (.ok "d") latest, ?_⟩
  intro lost
  have held := ((answers_latest _ "k" 1).1 "a").2 lost
  revert held
  decide

end Marginalia.VersionStore
