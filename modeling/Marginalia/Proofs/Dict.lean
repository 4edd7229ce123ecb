/-
Module: Marginalia.Proofs.Dict
Purpose: A finite map is known by its look-ups, and what the operations do to them.
Main exports:
  Dict.find_cons, Dict.get?_eq_some_iff, Dict.get?_map, Dict.get?_filter, Dict.get?_erase,
  Dict.ext_get?, Dict.insert_of_get?, Dict.entries_alter, Dict.get?_ofList, Dict.ofList_entries
-/
import Marginalia.Dict
import Mathlib.Data.List.Sort
import Mathlib.Tactic

namespace Marginalia.Dict

variable {κ : Type} [Ord κ] [Std.LawfulEqOrd κ] {α β : Type}

/-! ### Entries and look-ups -/

theorem find_cons [DecidableEq κ] (key k : κ) (value : α) (rest : List (κ × α)) :
    find key ((k, value) :: rest) = if key = k then some value else find key rest := by
  rw [find]
  by_cases same : key = k
  · simp [same, Std.ReflCmp.compare_self]
  · have differ : compare key k ≠ .eq := fun eq => same (Std.LawfulEqCmp.eq_of_compare eq)
    cases order : compare key k with
    | eq => exact absurd order differ
    | lt => simp [same]
    | gt => simp [same]

theorem find_eq_some_iff {key : κ} {value : α} {entries : List (κ × α)}
    (sorted : entries.Pairwise fun a b => compare a.1 b.1 = .lt) :
    find key entries = some value ↔ (key, value) ∈ entries := by
  classical
  induction entries with
  | nil => simp [find]
  | cons entry rest ih =>
    obtain ⟨k, v⟩ := entry
    obtain ⟨first, others⟩ := List.pairwise_cons.1 sorted
    rw [find_cons, List.mem_cons, Prod.mk.injEq]
    by_cases same : key = k
    · subst same
      -- no later entry has the key of the first
      have absent : (key, value) ∉ rest := by
        intro later
        have less : compare key key = .lt := first _ later
        simp [Std.ReflCmp.compare_self] at less
      simp [absent, eq_comm]
    · simpa [same] using ih others

/-- A key has a value exactly when the two are an entry. -/
theorem get?_eq_some_iff {d : Dict κ α} {key : κ} {value : α} :
    d.get? key = some value ↔ (key, value) ∈ d.entries :=
  find_eq_some_iff d.sorted

theorem nodup_entries (d : Dict κ α) : d.entries.Nodup := by
  refine d.sorted.imp fun {a b} less same => ?_
  simp [same, Std.ReflCmp.compare_self] at less

/-! ### Operations -/

theorem get?_map (f : α → β) (d : Dict κ α) (key : κ) :
    (d.map f).get? key = (d.get? key).map f := by
  ext value
  rw [get?_eq_some_iff, map, Option.map_eq_some_iff, List.mem_map]
  constructor
  · rintro ⟨⟨k, v⟩, member, same⟩
    obtain ⟨rfl, rfl⟩ := Prod.mk.inj same
    exact ⟨v, get?_eq_some_iff.2 member, rfl⟩
  · rintro ⟨v, known, rfl⟩
    exact ⟨(key, v), get?_eq_some_iff.1 known, rfl⟩

theorem get?_filter (p : κ → α → Bool) (d : Dict κ α) (key : κ) :
    (d.filter p).get? key = (d.get? key).filter (p key) := by
  ext value
  rw [get?_eq_some_iff, filter, List.mem_filter, Option.filter_eq_some_iff, get?_eq_some_iff]

theorem get?_erase [DecidableEq κ] (d : Dict κ α) (key other : κ) :
    (d.erase key).get? other = if other = key then none else d.get? other := by
  ext value
  rw [get?_eq_some_iff, erase, List.mem_filter]
  by_cases same : other = key
  · subst same
    simp
  · have differ : compare key other ≠ .eq :=
      fun eq => same (Std.LawfulEqCmp.eq_of_compare eq).symm
    simp [same, differ, get?_eq_some_iff]

/-! ### Equality -/

omit [Std.LawfulEqOrd κ] in
theorem ext_entries {d e : Dict κ α} (same : d.entries = e.entries) : d = e := by
  cases d
  cases e
  simp_all

variable [Std.TransOrd κ]

/-- Maps with the same look-ups are equal. -/
theorem ext_get? {d e : Dict κ α} (same : ∀ key, d.get? key = e.get? key) : d = e := by
  have perm : d.entries.Perm e.entries := by
    rw [List.perm_ext_iff_of_nodup d.nodup_entries e.nodup_entries]
    rintro ⟨key, value⟩
    rw [← get?_eq_some_iff, ← get?_eq_some_iff, same]
  refine ext_entries (perm.eq_of_pairwise (fun a b _ _ ab ba => ?_) d.sorted e.sorted)
  have greater : compare a.1 b.1 = .gt := Std.OrientedCmp.gt_iff_lt.2 ba
  simp [greater] at ab

/-- Giving a key the value that it has changes nothing. -/
theorem insert_of_get? [DecidableEq κ] {d : Dict κ α} {key : κ} {value : α}
    (known : d.get? key = some value) : d.insert key value = d := by
  apply ext_get?
  intro other
  rw [get?_insert]
  split
  · rename_i same
    rw [same, known]
  · rfl

/-! ### Entries in order -/

omit [Std.LawfulEqOrd κ] in
theorem place_append {key : κ} (value : α) {front : List (κ × α)}
    (before : ∀ e ∈ front, compare e.1 key = .lt) (rest : List (κ × α)) :
    place key value (front ++ rest) = front ++ place key value rest := by
  induction front with
  | nil => rfl
  | cons e front ih =>
    obtain ⟨k, v⟩ := e
    obtain ⟨first, others⟩ := List.forall_mem_cons.1 before
    have greater : compare key k = .gt := Std.OrientedCmp.gt_iff_lt.2 first
    rw [List.cons_append, place, greater, List.cons_append, ← ih others]

omit [Std.LawfulEqOrd κ] in
theorem place_of_forall_lt {key : κ} {value : α} {entries : List (κ × α)}
    (last : ∀ e ∈ entries, compare e.1 key = .lt) :
    place key value entries = entries ++ [(key, value)] := by
  simpa [place] using place_append value last []

/-- Entries that come in order are put one behind the other. -/
theorem entries_foldl_insert (entries : List (κ × α)) (front : Dict κ α)
    (sorted : (front.entries ++ entries).Pairwise fun a b => compare a.1 b.1 = .lt) :
    (entries.foldl (fun d e => d.insert e.1 e.2) front).entries = front.entries ++ entries := by
  induction entries generalizing front with
  | nil => simp
  | cons e entries ih =>
    have last : ∀ f ∈ front.entries, compare f.1 e.1 = .lt := by
      intro f member
      exact (List.pairwise_append.1 sorted).2.2 f member e List.mem_cons_self
    have placed : (front.insert e.1 e.2).entries = front.entries ++ [e] := place_of_forall_lt last
    rw [List.foldl_cons, ih _ (by rw [placed]; simpa using sorted), placed]
    simp

/-- To change the value of the last key, or to give one to a key behind all others, leaves the
entries in front. -/
theorem entries_alter {d : Dict κ α} {front : List (κ × α)} {key : κ} {old : Option α}
    (before : ∀ e ∈ front, compare e.1 key = .lt)
    (entries : d.entries = front ++ old.toList.map (key, ·)) (f : Option α → α) :
    (d.alter key f).entries = front ++ [(key, f old)] := by
  have known : d.get? key = old := by
    ext value
    rw [get?_eq_some_iff, entries, List.mem_append]
    constructor
    · rintro (member | member)
      · have less : compare key key = .lt := before _ member
        simp [Std.ReflCmp.compare_self] at less
      · simpa using member
    · rintro rfl
      simp
  show place key (f (d.get? key)) d.entries = _
  rw [known, entries, place_append _ before]
  cases old with
  | none => rfl
  | some value => simp [place, Std.ReflCmp.compare_self]

/-- In the map of a list of entries, a key has the value of its last entry. -/
theorem get?_ofList [DecidableEq κ] (entries : List (κ × α)) (key : κ) :
    (ofList entries).get? key = (entries.reverse.find? (·.1 = key)).map (·.2) := by
  induction entries using List.reverseRecOn with
  | nil => rfl
  | append_singleton entries last ih =>
    have step : ofList (entries ++ [last]) = (ofList entries).insert last.1 last.2 := by
      simp [ofList]
    rw [step, get?_insert, ih, List.reverse_append, List.reverse_singleton, List.singleton_append]
    by_cases same : last.1 = key
    · simp [same]
    · simp [same, Ne.symm same]

/-- A map is that of its entries. -/
theorem ofList_entries (d : Dict κ α) : ofList d.entries = d :=
  ext_entries (entries_foldl_insert d.entries empty d.sorted)

end Marginalia.Dict
