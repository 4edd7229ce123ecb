/-
Module: Marginalia.Proofs.Cache.Snapshot
Purpose: A snapshot that is written to a file reads back, and so do the stores of the resolver.
Main exports:
  Json.readString?_quote, Snapshot.parse?_render, Snapshot.ofBytes_toBytes,
  ModuleCache.store_restore_capture
-/
import Marginalia.Cache.Snapshot
import Marginalia.Proofs.Dict
import Marginalia.Proofs.Text.Utf8

namespace Marginalia

/-! ### Strings -/

namespace Json

theorem hexValue?_hexDigit {n : Nat} (small : n < 16) : hexValue? (hexDigit n) = some n := by
  interval_cases n <;> rfl

/-- A character is written as it is, or as an escape that stands for it. -/
theorem escapeChar_cases (c : Char) :
    (escapeChar c = [c] ∧ c ≠ '"' ∧ c ≠ '\\' ∧ ¬c.toNat < 0x20) ∨
    ∃ tail, escapeChar c = '\\' :: tail ∧
      ∀ rest, escape? (tail ++ rest) = some (c, tail.length) := by
  have short (d : Char) (simple : simpleEscape? d = some c) :
      ∀ rest, escape? ([d] ++ rest) = some (c, 1) := by
    intro rest
    rw [List.singleton_append]
    unfold escape?
    split
    · rename_i same
      obtain ⟨rfl, -⟩ := List.cons.inj same
      cases simple
    · rename_i same
      obtain ⟨rfl, -⟩ := List.cons.inj same
      rw [simple]
      rfl
    · rename_i same
      cases same
  unfold escapeChar
  split
  · rename_i same
    exact .inr ⟨['"'], rfl, short _ (by rw [same]; rfl)⟩
  split
  · rename_i same
    exact .inr ⟨['\\'], rfl, short _ (by rw [same]; rfl)⟩
  split
  · rename_i same
    exact .inr ⟨['b'], rfl, short _ (by rw [same]; rfl)⟩
  split
  · rename_i same
    exact .inr ⟨['f'], rfl, short _ (by rw [same]; rfl)⟩
  split
  · rename_i same
    exact .inr ⟨['n'], rfl, short _ (by rw [same]; rfl)⟩
  split
  · rename_i same
    exact .inr ⟨['r'], rfl, short _ (by rw [same]; rfl)⟩
  split
  · rename_i same
    exact .inr ⟨['t'], rfl, short _ (by rw [same]; rfl)⟩
  split
  · rename_i control
    refine .inr ⟨_, rfl, fun rest => ?_⟩
    have zero : hexValue? '0' = some 0 := rfl
    have unit : hex4? ('0' :: '0' :: hexDigit (c.toNat / 16) :: hexDigit (c.toNat % 16) :: rest) =
        some c.toNat := by
      simp only [hex4?, zero, hexValue?_hexDigit (show c.toNat / 16 < 16 by omega),
        hexValue?_hexDigit (show c.toNat % 16 < 16 by omega), Option.bind_eq_bind, Option.bind_some]
      refine congrArg some ?_
      omega
    simp [escape?, unit, show ¬(0xD800 ≤ c.toNat ∧ c.toNat < 0xDC00) by omega,
      show ¬(0xDC00 ≤ c.toNat ∧ c.toNat < 0xE000) by omega]
  · exact .inl ⟨rfl, ‹_›, ‹_›, ‹_›⟩

theorem stringTail?_skip (skipped rest : List Char) :
    stringTail? skipped.length (skipped ++ rest) = stringTail? 0 rest := by
  induction skipped with
  | nil => rfl
  | cons c skipped ih => exact ih

/-- A written character is read back, whatever follows it. -/
theorem stringTail?_escapeChar (c : Char) (rest : List Char) :
    stringTail? 0 (escapeChar c ++ rest) =
      (stringTail? 0 rest).map fun (s, after) => (c :: s, after) := by
  rcases escapeChar_cases c with ⟨plain, quoteless, bare, printed⟩ | ⟨tail, escaped, reads⟩
  · rw [plain, List.singleton_append, stringTail?, if_neg quoteless, if_neg bare, if_neg printed]
  · rw [escaped, List.cons_append, stringTail?, if_neg (by decide), if_pos rfl, reads]
    dsimp only
    rw [stringTail?_skip]

/-- A written text is read back, whatever follows it. -/
theorem readString?_quote (cs rest : List Char) :
    readString? (quote cs ++ rest) = some (cs, rest) := by
  have inner : stringTail? 0 (cs.flatMap escapeChar ++ '"' :: rest) = some (cs, rest) := by
    induction cs with
    | nil => rfl
    | cons c cs ih =>
      rw [List.flatMap_cons, List.append_assoc, stringTail?_escapeChar, ih]
      rfl
  rw [quote, List.append_assoc, List.cons_append, readString?, if_pos rfl]
  exact inner

end Json

/-! ### Objects -/

namespace Snapshot

theorem skipGap_cons {c : Char} (solid : isGap c = false) (cs : List Char) :
    skipGap (c :: cs) = c :: cs := by
  simp [skipGap, solid]

theorem skipGap_quote (cs rest : List Char) :
    skipGap (Json.quote cs ++ rest) = Json.quote cs ++ rest :=
  skipGap_cons rfl _

theorem skipGap_object (members : List (String × Json.Value)) (rest : List Char) :
    skipGap (Json.compact (.object members) ++ rest) = Json.compact (.object members) ++ rest := by
  rw [Json.compact]
  exact skipGap_cons (by decide) _

theorem skipGap_compactMembers (members : List (String × Json.Value)) (rest : List Char) :
    skipGap (Json.compactMembers false members ++ rest) =
      Json.compactMembers false members ++ rest := by
  cases members with
  | nil => exact skipGap_cons rfl _
  | cons m members => exact skipGap_cons rfl _

theorem length_le_compactMembers (members : List (String × Json.Value)) :
    members.length ≤ (Json.compactMembers false members).length := by
  induction members with
  | nil => simp
  | cons m members ih =>
    obtain ⟨key, written⟩ := m
    simp only [Json.compactMembers, List.length_append, List.length_cons]
    omega

/-- How the values of members are written and read: whatever follows, a written value is read back,
and none starts with a blank. -/
structure Reads {α : Type} (value? : List Char → Option (α × List Char)) (written : Json.Value)
    (value : α) : Prop where
  back : ∀ rest, value? (Json.compact written ++ rest) = some (value, rest)
  solid : ∀ rest, skipGap (Json.compact written ++ rest) = Json.compact written ++ rest

section Members

variable {α : Type} {value? : List Char → Option (α × List Char)}

theorem member?_quote {key : String} {written : Json.Value} {value : α}
    (reads : Reads value? written value) (rest : List Char) :
    member? value? (Json.quote key.toList ++ ':' :: (Json.compact written ++ rest)) =
      some ((key, value), skipGap rest) := by
  unfold member?
  simp [Json.readString?_quote, skipGap_cons (show isGap ':' = false from rfl), reads.solid,
    reads.back]

/-- The members of an object after the first are read back, given more trials than members. -/
theorem otherMembers?_compactMembers {members : List (String × Json.Value)}
    {values : List (String × α)}
    (reads : List.Forall₂ (fun m v => m.1 = v.1 ∧ Reads value? m.2 v.2) members values) {n : Nat}
    (enough : members.length < n) (rest : List Char) :
    otherMembers? value? n (Json.compactMembers false members ++ rest) = some (values, rest) := by
  induction reads generalizing n with
  | nil =>
    obtain ⟨n, rfl⟩ : ∃ k, n = k + 1 := ⟨n - 1, by omega⟩
    rfl
  | @cons m v members values first others ih =>
    obtain ⟨key, written⟩ := m
    obtain ⟨key', value⟩ := v
    obtain ⟨rfl, reads⟩ := first
    rw [List.length_cons] at enough
    obtain ⟨n, rfl⟩ : ∃ k, n = k + 1 := ⟨n - 1, by omega⟩
    rw [Json.compactMembers]
    simp only [Bool.false_eq_true, if_false, List.append_assoc, List.cons_append, List.nil_append,
      otherMembers?]
    rw [skipGap_quote, member?_quote reads, skipGap_compactMembers]
    simp [ih (show members.length < n by omega)]

/-- An object is read back, whatever follows it. -/
theorem object?_compact {members : List (String × Json.Value)} {values : List (String × α)}
    (reads : List.Forall₂ (fun m v => m.1 = v.1 ∧ Reads value? m.2 v.2) members values)
    (rest : List Char) :
    object? value? (Json.compact (.object members) ++ rest) = some (values, rest) := by
  cases reads with
  | nil => rfl
  | @cons m v members values first others =>
    obtain ⟨key, written⟩ := m
    obtain ⟨key', value⟩ := v
    obtain ⟨rfl, reads⟩ := first
    have body : Json.compactMembers true ((key, written) :: members) ++ rest =
        Json.quote key.toList ++ ':' :: (Json.compact written ++
          (Json.compactMembers false members ++ rest)) := by
      simp [Json.compactMembers]
    have enough : members.length < (Json.compactMembers false members ++ rest).length + 1 := by
      have size := length_le_compactMembers members
      rw [List.length_append]
      omega
    rw [Json.compact, List.cons_append, body, object?, skipGap_quote]
    split
    · rename_i closed
      cases closed
    · have more := otherMembers?_compactMembers others enough rest
      rw [member?_quote reads, skipGap_compactMembers]
      simp only [Option.bind_eq_bind, Option.bind_some, more]
      rfl

end Members

/-! ### Sections and snapshots -/

theorem reads_string (s : String) : Reads stringValue? (.string s) s := by
  constructor
  · intro rest
    simp [Json.compact, stringValue?, Json.readString?_quote]
  · intro rest
    rw [Json.compact]
    exact skipGap_quote _ _

theorem forall₂_map_reads {α β : Type} {value? : List Char → Option (α × List Char)}
    {write : β → Json.Value} {value : β → α} (reads : ∀ b, Reads value? (write b) (value b))
    (entries : List (String × β)) :
    List.Forall₂ (fun m v => m.1 = v.1 ∧ Reads value? m.2 v.2)
      (entries.map fun e => (e.1, write e.2)) (entries.map fun e => (e.1, value e.2)) := by
  induction entries with
  | nil => exact .nil
  | cons e entries ih => exact .cons ⟨rfl, reads e.2⟩ ih

theorem reads_section (entries : Dict String String) :
    Reads section? (sectionValue entries) entries := by
  constructor
  · intro rest
    have read := object?_compact (forall₂_map_reads reads_string entries.entries) rest
    simp only [section?, sectionValue]
    rw [read]
    simp [Dict.ofList_entries]
  · intro rest
    rw [sectionValue]
    exact skipGap_object _ _

/-- A written snapshot is read back. -/
theorem parse?_render (s : Snapshot) : parse? s.render = some s := by
  have read := object?_compact (forall₂_map_reads reads_section s.entries) []
  rw [List.append_nil] at read
  have gap := skipGap_object (s.entries.map fun e => (e.1, sectionValue e.2)) []
  rw [List.append_nil] at gap
  unfold parse?
  rw [render, gap, read, Option.bind_eq_bind, Option.bind_some, List.map_id'']
  · simp only [skipGap, List.dropWhile_nil, List.isEmpty_nil, if_true, Dict.ofList_entries]
    rfl
  · intro e
    rfl

/-- A snapshot that is written to a file is read back from it. -/
theorem ofBytes_toBytes (s : Snapshot) : ofBytes s.toBytes = s := by
  rw [ofBytes, toBytes, Utf8.decode_encode]
  simp [parse?_render]

end Snapshot

/-! ### The stores of the resolver -/

theorem StoreName.sectionName_inj {name other : StoreName} :
    name.sectionName = other.sectionName ↔ name = other := by
  cases name <;> cases other <;> simp [sectionName]

namespace ModuleCache

theorem store_setStore (c : ModuleCache) (name other : StoreName) (s : StringStore) :
    (c.setStore name s).store other = if other = name then s else c.store other := by
  cases name <;> cases other <;> rfl

/-- The section of a store after some stores were put into a snapshot. -/
theorem get?_foldl_insert (c : ModuleCache) (names : List StoreName) (s : Snapshot)
    (name : StoreName) :
    (names.foldl (fun s n => s.insert n.sectionName (c.store n)) s).get? name.sectionName =
      if name ∈ names then some (c.store name) else s.get? name.sectionName := by
  induction names generalizing s with
  | nil => simp
  | cons n names ih =>
    rw [List.foldl_cons, ih, Dict.get?_insert]
    by_cases same : name = n
    · simp [same]
    · simp [same, StoreName.sectionName_inj]

theorem get?_capture (c : ModuleCache) (s : Snapshot) (name : StoreName) :
    (c.capture s).get? name.sectionName = some (c.store name) := by
  rw [capture, get?_foldl_insert, if_pos]
  cases name <;> decide

/-- One store is filled from its section. -/
def take : ModuleCache × Snapshot → StoreName → ModuleCache × Snapshot
  | (cache, rest), name =>
    match rest.get? name.sectionName with
    | none => (cache, rest)
    | some entries =>
      (cache.setStore name (entries.filter fun _ v => !v.isEmpty), rest.erase name.sectionName)

theorem restore_eq (s : Snapshot) : restore s = StoreName.all.foldl take ({}, s) := rfl

/-- A store after some stores were filled from a snapshot. -/
theorem store_foldl_take (names : List StoreName) (c : ModuleCache) (s : Snapshot)
    (name : StoreName) :
    (names.foldl take (c, s)).1.store name =
      if name ∈ names then
        match s.get? name.sectionName with
        | some entries => entries.filter fun _ v => !v.isEmpty
        | none => c.store name
      else c.store name := by
  induction names generalizing c s with
  | nil => simp
  | cons n names ih =>
    rw [List.foldl_cons, take]
    cases found : s.get? n.sectionName with
    | none =>
      rw [ih]
      by_cases same : name = n
      · simp [same, found]
      · simp [same]
    | some entries =>
      rw [ih, store_setStore, Dict.get?_erase]
      by_cases same : name = n
      · simp [same, found]
      · simp [same, StoreName.sectionName_inj]

/-- Stores that were put into a snapshot come back, less their empty values. -/
theorem store_restore_capture (c : ModuleCache) (s : Snapshot) (name : StoreName) :
    (restore (c.capture s)).1.store name = (c.store name).filter fun _ v => !v.isEmpty := by
  rw [restore_eq, store_foldl_take, get?_capture, if_pos]
  cases name <;> decide

end ModuleCache
end Marginalia
