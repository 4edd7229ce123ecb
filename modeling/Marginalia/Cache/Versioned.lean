/-
Module: Marginalia.Cache.Versioned
Purpose: Values kept by key together with the version that they were computed from.
Main exports:
  VersionStore, VersionStore.get?, VersionStore.loadM, VersionStore.load
-/
import Marginalia.Dict

namespace Marginalia

/-- A value, the version that it was computed from, and how many values the store had computed
before it. -/
structure Versioned (ν α : Type) where
  version : ν
  value : α
  serial : Nat
deriving Repr, DecidableEq

/-- A store of values by key. A key may be known without a value: every computation for it failed
so far. -/
structure VersionStore (κ : Type) [Ord κ] (ν α : Type) where
  slots : Dict κ (Option (Versioned ν α))
  serial : Nat

namespace VersionStore

variable {κ : Type} [Ord κ] {ν α ε : Type}

/-- The store without keys. -/
def empty : VersionStore κ ν α := ⟨∅, 0⟩

instance : Inhabited (VersionStore κ ν α) := ⟨empty⟩

/-- The number of keys. -/
def size (s : VersionStore κ ν α) : Nat := s.slots.size

/-- What is kept for a key, if it was computed from the version. -/
def slot? [DecidableEq ν] (s : VersionStore κ ν α) (key : κ) (version : ν) :
    Option (Versioned ν α) :=
  match s.slots.get? key with
  | some (some v) => if v.version = version then some v else none
  | _ => none

/-- The value of a key, if it was computed from the version. -/
def get? [DecidableEq ν] (s : VersionStore κ ν α) (key : κ) (version : ν) : Option α :=
  (s.slot? key version).map (·.value)

/-- Keep a value that was computed for a key. -/
def put [Std.TransOrd κ] [Std.LawfulEqOrd κ] (s : VersionStore κ ν α) (key : κ) (version : ν)
    (value : α) : VersionStore κ ν α :=
  ⟨s.slots.insert key (some ⟨version, value, s.serial⟩), s.serial + 1⟩

/-- Make a key known and leave its value, if it has one. -/
def touch [Std.TransOrd κ] [Std.LawfulEqOrd κ] (s : VersionStore κ ν α) (key : κ) :
    VersionStore κ ν α :=
  { s with slots := s.slots.insert key ((s.slots.get? key).getD none) }

/-- The result of a load: what the store answers, and whether the computation ran. -/
structure Loaded (ε α : Type) where
  answer : Except ε α
  computed : Bool

/-- The value of a key for a version, by an action that computes it unless the store has it. A
computation that fails leaves the value of an earlier version in place. -/
def loadM {m : Type → Type} [Monad m] [DecidableEq ν] [Std.TransOrd κ] [Std.LawfulEqOrd κ]
    (s : VersionStore κ ν α) (key : κ) (version : ν) (compute : Unit → m (Except ε α)) :
    m (Loaded ε α × VersionStore κ ν α) := do
  match s.get? key version with
  | some value => return (⟨.ok value, false⟩, s)
  | none =>
    match ← compute () with
    | .ok value => return (⟨.ok value, true⟩, s.put key version value)
    | .error e => return (⟨.error e, true⟩, s.touch key)

/-- The value of a key for a version, computed unless the store has it, without effects. -/
def load [DecidableEq ν] [Std.TransOrd κ] [Std.LawfulEqOrd κ] (s : VersionStore κ ν α) (key : κ)
    (version : ν) (compute : Unit → Except ε α) : Loaded ε α × VersionStore κ ν α :=
  Id.run (s.loadM key version compute)

end VersionStore
end Marginalia
