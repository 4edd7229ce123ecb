/-
Module: Marginalia.Dict
Purpose: Finite maps that list their entries in increasing order of the keys.
Main exports:
  Dict, Dict.insert, Dict.get?, Dict.erase, Dict.ofList, Dict.get?_insert
-/

namespace Marginalia

/-- A finite map. Its entries are in strictly increasing order of the keys, so two maps with the
same entries are equal and every listing of one is sorted. -/
structure Dict (κ : Type) [Ord κ] (α : Type) where
  entries : List (κ × α)
  sorted : entries.Pairwise fun a b => compare a.1 b.1 = .lt

namespace Dict

variable {κ : Type} [Ord κ] {α β : Type}

instance [DecidableEq κ] [DecidableEq α] : DecidableEq (Dict κ α) := fun a b =>
  if h : a.entries = b.entries then
    isTrue (by cases a; cases b; simp_all)
  else isFalse fun e => h (by rw [e])

/-- The map without entries. -/
def empty : Dict κ α := ⟨[], .nil⟩

instance : EmptyCollection (Dict κ α) := ⟨empty⟩

instance : Inhabited (Dict κ α) := ⟨empty⟩

/-- The entry of a key among sorted entries. -/
def find (key : κ) : List (κ × α) → Option α
  | [] => none
  | (k, v) :: rest =>
    match compare key k with
    | .eq => some v
    | _ => find key rest

/-- The value of a key. -/
def get? (d : Dict κ α) (key : κ) : Option α :=
  find key d.entries

/-- Whether a key has a value. -/
def contains (d : Dict κ α) (key : κ) : Bool :=
  (d.get? key).isSome

/-- The number of entries. -/
def size (d : Dict κ α) : Nat :=
  d.entries.length

/-- Whether there is no entry. -/
def isEmpty (d : Dict κ α) : Bool :=
  d.entries.isEmpty

/-- The keys, in increasing order. -/
def keys (d : Dict κ α) : List κ :=
  d.entries.map (·.1)

/-- Put an entry at its place among sorted entries, in place of one with the same key. -/
def place (key : κ) (value : α) : List (κ × α) → List (κ × α)
  | [] => [(key, value)]
  | (k, v) :: rest =>
    match compare key k with
    | .lt => (key, value) :: (k, v) :: rest
    | .eq => (key, value) :: rest
    | .gt => (k, v) :: place key value rest

theorem mem_place {key : κ} {value : α} {entry : κ × α} :
    ∀ {entries : List (κ × α)}, entry ∈ place key value entries →
      entry = (key, value) ∨ entry ∈ entries
  | [], h => by simpa [place] using h
  | (k, v) :: rest, h => by
    unfold place at h
    split at h
    · simpa using h
    · simp only [List.mem_cons] at h ⊢
      exact h.imp_right Or.inr
    · simp only [List.mem_cons] at h ⊢
      rcases h with h | h
      · exact Or.inr (Or.inl h)
      · exact (mem_place h).imp_right Or.inr

theorem sorted_place [Std.TransOrd κ] [Std.LawfulEqOrd κ] (key : κ) (value : α) :
    ∀ {entries : List (κ × α)}, entries.Pairwise (fun a b => compare a.1 b.1 = .lt) →
      (place key value entries).Pairwise fun a b => compare a.1 b.1 = .lt
  | [], _ => by simp [place]
  | (k, v) :: rest, h => by
    rw [List.pairwise_cons] at h
    unfold place
    split
    · rename_i lt
      refine List.pairwise_cons.2 ⟨?_, List.pairwise_cons.2 h⟩
      intro b hb
      rcases List.mem_cons.1 hb with rfl | hb
      · exact lt
      · exact Std.TransCmp.lt_trans lt (h.1 b hb)
    · rename_i eq
      have same : key = k := Std.LawfulEqCmp.compare_eq_iff_eq.1 eq
      exact List.pairwise_cons.2 ⟨by simpa [same] using h.1, h.2⟩
    · rename_i gt
      refine List.pairwise_cons.2 ⟨?_, sorted_place key value h.2⟩
      intro b hb
      rcases mem_place hb with rfl | hb
      · exact Std.OrientedCmp.gt_iff_lt.1 gt
      · exact h.1 b hb

/-- Give a key a value. -/
def insert [Std.TransOrd κ] [Std.LawfulEqOrd κ] (d : Dict κ α) (key : κ) (value : α) :
    Dict κ α :=
  ⟨place key value d.entries, sorted_place key value d.sorted⟩

/-- Take a key out. -/
def erase (d : Dict κ α) (key : κ) : Dict κ α :=
  ⟨d.entries.filter fun e => compare key e.1 != .eq, d.sorted.filter _⟩

/-- The entries that satisfy a test. -/
def filter (p : κ → α → Bool) (d : Dict κ α) : Dict κ α :=
  ⟨d.entries.filter fun e => p e.1 e.2, d.sorted.filter _⟩

/-- Apply a function to every value. -/
def map (f : α → β) (d : Dict κ α) : Dict κ β :=
  ⟨d.entries.map fun e => (e.1, f e.2), by
    rw [List.pairwise_map]
    exact d.sorted⟩

/-- Change the value of a key, or give it one. -/
def alter [Std.TransOrd κ] [Std.LawfulEqOrd κ] (d : Dict κ α) (key : κ)
    (f : Option α → α) : Dict κ α :=
  d.insert key (f (d.get? key))

/-- The map of a list of entries; of two with one key the later stays. -/
def ofList [Std.TransOrd κ] [Std.LawfulEqOrd κ] (entries : List (κ × α)) : Dict κ α :=
  entries.foldl (fun d e => d.insert e.1 e.2) empty

/-! ### What the operations do to look-ups -/

theorem find_place [Std.TransOrd κ] [Std.LawfulEqOrd κ] (key other : κ) (value : α) :
    ∀ entries : List (κ × α), find other (place key value entries) =
      if compare other key = .eq then some value else find other entries
  | [] => by
    simp only [place, find]
    split <;> simp_all
  | (k, v) :: rest => by
    unfold place
    split
    · simp only [find]
      cases compare other key <;> simp
    · rename_i eq
      have same : key = k := Std.LawfulEqCmp.compare_eq_iff_eq.1 eq
      subst same
      simp only [find]
      cases compare other key <;> simp
    · rename_i gt
      have ne : ∀ h : compare other key = .eq, compare other k ≠ .eq := by
        intro h e
        rw [Std.LawfulEqCmp.compare_eq_iff_eq] at h e
        subst h e
        simp [Std.ReflCmp.compare_self] at gt
      simp only [find, find_place key other value rest]
      by_cases h : compare other key = .eq
      · have differ := ne h
        simp only [h, if_true]
      · simp [h]

/-- A key has the value that it was last given; the other keys keep theirs. -/
theorem get?_insert [DecidableEq κ] [Std.TransOrd κ] [Std.LawfulEqOrd κ] (d : Dict κ α)
    (key other : κ) (value : α) :
    (d.insert key value).get? other = if other = key then some value else d.get? other := by
  simp [get?, insert, find_place, Std.LawfulEqCmp.compare_eq_iff_eq]

@[simp] theorem get?_empty (key : κ) : (empty : Dict κ α).get? key = none := rfl

end Dict
end Marginalia
