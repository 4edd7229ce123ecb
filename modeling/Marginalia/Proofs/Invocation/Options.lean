/-
Module: Marginalia.Proofs.Invocation.Options
Purpose: What a key holds after options were pushed, collected and filled up.
Main exports:
  Options.joined, Options.get?_push, Options.get?_foldl_push, Options.get?_withDefaults
-/
import Marginalia.Invocation.Options
import Marginalia.Proofs.Dict

namespace Marginalia.Options

/-- The values of a key among pairs, in order. -/
def valuesOf (pairs : List (String × String)) (key : String) : List String :=
  (pairs.filter (·.1 == key)).map (·.2)

/-- Values joined by commas; without values there is nothing to join. -/
def joined : List String → Option String
  | [] => none
  | values => some (",".intercalate values)

/-- A value behind what a key holds already. -/
def extended (held : Option String) (value : String) : String :=
  match held with
  | some old => old ++ "," ++ value
  | none => value

theorem get?_push (options : Options) (key value other : String) :
    (options.push key value).get? other =
      if other = key then some (extended (options.get? key) value) else options.get? other := by
  unfold push extended
  cases options.get? key with
  | none => rw [Dict.get?_insert]
  | some old => rw [Dict.get?_insert]

/-- Pairs that are pushed in turn extend what their keys hold. -/
theorem get?_foldl_push (pairs : List (String × String)) (options : Options) (key : String) :
    (pairs.foldl (fun acc pair => acc.push pair.1 pair.2) options).get? key =
      (valuesOf pairs key).foldl (fun held value => some (extended held value))
        (options.get? key) := by
  induction pairs generalizing options with
  | nil => rfl
  | cons pair pairs ih =>
    rw [List.foldl_cons, ih, get?_push]
    by_cases same : pair.1 = key
    · simp [valuesOf, same]
    · simp [valuesOf, same, Ne.symm same]

theorem foldl_extended (first : String) (values : List String) :
    values.foldl (fun held value => some (extended held value)) (some first) =
      some (",".intercalate (first :: values)) := by
  induction values generalizing first with
  | nil => simp
  | cons value values ih =>
    rw [List.foldl_cons, extended, ih]
    simp [String.append_assoc]

/-- Pushed onto nothing, the values of a key are joined. -/
theorem get?_foldl_push_empty (pairs : List (String × String)) (key : String) :
    (pairs.foldl (fun acc pair => acc.push pair.1 pair.2) (∅ : Options)).get? key =
      joined (valuesOf pairs key) := by
  rw [get?_foldl_push]
  cases valuesOf pairs key with
  | nil => rfl
  | cons value values => exact foldl_extended value values

theorem get?_fill (entries : List (String × String)) (options : Options) (key : String) :
    (entries.foldl (fun acc e => if acc.contains e.1 then acc else acc.insert e.1 e.2)
      options).get? key = (options.get? key).or (Dict.find key entries) := by
  induction entries generalizing options with
  | nil => simp [Dict.find]
  | cons entry entries ih =>
    obtain ⟨k, v⟩ := entry
    rw [List.foldl_cons, ih, Dict.find_cons]
    by_cases same : key = k
    · subst same
      cases held : options.get? key with
      | none => simp [Dict.contains, held, Dict.get?_insert]
      | some old => simp [Dict.contains, held]
    · rw [if_neg same]
      split
      · rfl
      · rw [Dict.get?_insert, if_neg same]

/-- A default counts for the keys that are absent. -/
theorem get?_withDefaults (options defaults : Options) (key : String) :
    (options.withDefaults defaults).get? key = (options.get? key).or (defaults.get? key) :=
  get?_fill defaults.entries options key

end Marginalia.Options
