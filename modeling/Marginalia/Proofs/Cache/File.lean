/-
Module: Marginalia.Proofs.Cache.File
Purpose: Snapshots in files: a written one is read back, and caches that are taken from a file and
  written to it again keep what they know and what they do not know.
Main exports:
  Snapshot.IsText, Snapshot.write_read, Snapshot.Tidied, Caches.tidied_toSnapshot,
  Caches.load_flush
-/
import Marginalia.Proofs.Cache.Snapshot
import Marginalia.Proofs.FileTree.Place
import Marginalia.Proofs.Json.Compact
import Marginalia.Workspace.Query

namespace Marginalia

/-! ### The text of a snapshot -/

theorem Dict.pairwise_bytes_keys {α : Type} (d : Dict String α) :
    (d.entries.map fun e => Utf8.ofString e.1).Pairwise (· < ·) := by
  rw [List.pairwise_map]
  refine d.sorted.imp ?_
  intro a b less
  have before : a.1 < b.1 := compareOfLessAndEq_eq_lt.1 less
  exact Utf8.encode_lt_encode (String.lt_iff.1 before)

namespace Snapshot

/-- The form of a snapshot's text: an object of objects of strings, without blanks and with the keys
in the order of their bytes. -/
def IsText (s : Snapshot) (text : List Char) : Prop :=
  Json.IsObject (fun entries => Json.IsObject (fun value => Json.IsQuoted value.toList)
    entries.entries) s.entries text

theorem isText_render (s : Snapshot) : s.IsText s.render := by
  apply Json.isObject_compact
  · intro entries
    apply Json.isObject_compact
    · intro value
      rw [Json.compact]
      exact Json.isQuoted_quote _
    · exact entries.pairwise_bytes_keys
  · exact s.pairwise_bytes_keys

/-- Where a file can be written a snapshot can, and it is then read back as it was. -/
theorem exists_write {files : FileTree} {p : Path} {place : List String}
    (led : files.target p = .ok place) (s : Snapshot) :
    ∃ files', s.write files p = .ok files' ∧ files'.read p = .ok s.toBytes ∧
      Snapshot.read files' p = .ok s := by
  have written : s.write files p = .ok (files.put place (.file s.toBytes)) := by
    rw [Snapshot.write, FileTree.write, led]
  have back := FileTree.read_of_write written
  refine ⟨_, written, back, ?_⟩
  rw [Snapshot.read, back]
  exact congrArg Except.ok s.ofBytes_toBytes

/-- Every snapshot can be written where a file can, in its form, and is then read back from the file
as it was. -/
theorem write_read {files : FileTree} {p : Path} {place : List String}
    (led : files.target p = .ok place) (s : Snapshot) :
    ∃ files', s.write files p = .ok files' ∧ Snapshot.read files' p = .ok s ∧
      ∃ text, files'.read p = .ok (Utf8.encode text) ∧ s.IsText text := by
  obtain ⟨files', written, bytes, back⟩ := exists_write led s
  exact ⟨files', written, back, s.render, bytes, s.isText_render⟩

/-- A key and a value with a quote, a backslash, control characters and a character of four bytes,
written in the place of a file that held no snapshot. -/
theorem write_read_escapes :
    let files : FileTree := ⟨"/w", Dict.ofList [(["w"], .dir),
      (["w", "cache.json"], .file (Utf8.ofString "no snapshot"))]⟩
    let s : Snapshot := Dict.ofList [("modFile", Dict.ofList [("a\"\\\n", "\x01\t😀")]), ("", ∅)]
    files.target "cache.json" = .ok ["w", "cache.json"] ∧
      ∃ files', s.write files "cache.json" = .ok files' ∧
        Snapshot.read files' "cache.json" = .ok s ∧
        ∃ text, files'.read "cache.json" = .ok (Utf8.encode text) ∧ s.IsText text := by
  intro files s
  have led : files.target "cache.json" = .ok ["w", "cache.json"] := by decide +kernel
  exact ⟨led, write_read led s⟩

end Snapshot

/-! ### Stores that are filled and put back -/

/-- What is left of a snapshot that went through the stores: their sections without empty values,
and all other sections. -/
structure Snapshot.Tidied (s t : Snapshot) : Prop where
  known : ∀ name : StoreName, t.get? name.sectionName =
    some (((s.get? name.sectionName).getD ∅).filter fun _ value => !value.isEmpty)
  unknown : ∀ key, (∀ name : StoreName, key ≠ name.sectionName) → t.get? key = s.get? key

namespace ModuleCache

variable {key : String} (other : ∀ name : StoreName, key ≠ name.sectionName)

include other

theorem get?_foldl_insert_of_ne (c : ModuleCache) (names : List StoreName) (s : Snapshot) :
    (names.foldl (fun s n => s.insert n.sectionName (c.store n)) s).get? key = s.get? key := by
  induction names generalizing s with
  | nil => rfl
  | cons n names ih => rw [List.foldl_cons, ih, Dict.get?_insert, if_neg (other n)]

/-- A section of no store remains while stores are filled. -/
theorem get?_foldl_take_of_ne (names : List StoreName) (c : ModuleCache) (s : Snapshot) :
    (names.foldl take (c, s)).2.get? key = s.get? key := by
  induction names generalizing c s with
  | nil => rfl
  | cons n names ih =>
    rw [List.foldl_cons, take]
    cases s.get? n.sectionName with
    | none => exact ih c s
    | some entries =>
      dsimp only
      rw [ih, Dict.get?_erase, if_neg (other n)]

end ModuleCache

namespace Caches

theorem tidied_toSnapshot (s : Snapshot) : s.Tidied (ofSnapshot s).toSnapshot := by
  constructor
  · intro name
    have member : name ∈ StoreName.all := by cases name <;> decide
    rw [toSnapshot, ModuleCache.get?_capture, Option.some.injEq]
    change (ModuleCache.restore s).1.store name = _
    rw [ModuleCache.restore_eq, ModuleCache.store_foldl_take, if_pos member]
    cases s.get? name.sectionName with
    | some entries => rfl
    | none => cases name <;> rfl
  · intro key other
    rw [toSnapshot, ModuleCache.capture, ModuleCache.get?_foldl_insert_of_ne other]
    change (ModuleCache.restore s).2.get? key = s.get? key
    rw [ModuleCache.restore_eq, ModuleCache.get?_foldl_take_of_ne other]

end Caches

/-- To fill the stores from their own sections and to put them back changes nothing. -/
theorem Snapshot.Tidied.eq {s t u : Snapshot} (first : s.Tidied t) (second : t.Tidied u) :
    u = t := by
  apply Dict.ext_get?
  intro key
  by_cases known : ∃ name : StoreName, key = name.sectionName
  · obtain ⟨name, rfl⟩ := known
    rw [second.known, first.known, Option.getD_some, Option.some.injEq]
    apply Dict.ext_entries
    exact List.filter_filter.trans (by simp [Dict.filter])
  · exact second.unknown key fun name same => known ⟨name, same⟩

namespace Caches

/-- Caches that are taken from a file and written to it leave there what it held, less the empty
values of their stores and with a section for each; once more, and nothing changes. -/
theorem load_flush {files : FileTree} {p : Path} {place : List String}
    (led : files.target p = .ok place) :
    ∃ s caches files' t caches', Snapshot.read files p = .ok s ∧
      Caches.load files p = .ok caches ∧ caches.flush files p = .ok files' ∧
      Snapshot.read files' p = .ok t ∧ s.Tidied t ∧
      Caches.load files' p = .ok caches' ∧ caches'.flush files' p = .ok files' := by
  obtain ⟨s, read⟩ : ∃ s, Snapshot.read files p = .ok s := by
    unfold Snapshot.read
    rcases FileTree.read_of_target led with ⟨bytes, there⟩ | absent
    · exact ⟨_, by rw [there]⟩
    · exact ⟨_, by rw [absent]⟩
  have load : Caches.load files p = .ok (ofSnapshot s) := by rw [Caches.load, read]
  have tidied := tidied_toSnapshot s
  obtain ⟨files', flushed, bytes, back⟩ := (ofSnapshot s).toSnapshot.exists_write led
  have load' : Caches.load files' p = .ok (ofSnapshot (ofSnapshot s).toSnapshot) := by
    rw [Caches.load, back]
  have again : (ofSnapshot (ofSnapshot s).toSnapshot).flush files' p = .ok files' := by
    rw [Caches.flush, tidied.eq (tidied_toSnapshot _)]
    exact FileTree.write_same bytes
  exact ⟨s, _, files', _, _, read, load, flushed, back, tidied, load', again⟩

/-- A section of a store with an empty value, one that no store knows, and a key that comes
twice. -/
theorem load_flush_unknown :
    let text := "\x7b\"modFile\":\x7b\"/a\":\"\",\"/b\":\"/go.mod\"\x7d," ++
      "\"new\":\x7b\"k\":\"1\",\"k\":\"\"\x7d\x7d"
    let files : FileTree := ⟨"/w", Dict.ofList [(["w"], .dir),
      (["w", "cache.json"], .file (Utf8.ofString text))]⟩
    files.target "cache.json" = .ok ["w", "cache.json"] ∧
      ∃ s caches files' t caches', Snapshot.read files "cache.json" = .ok s ∧
        Caches.load files "cache.json" = .ok caches ∧
        caches.flush files "cache.json" = .ok files' ∧
        Snapshot.read files' "cache.json" = .ok t ∧ s.Tidied t ∧
        Caches.load files' "cache.json" = .ok caches' ∧
        caches'.flush files' "cache.json" = .ok files' := by
  intro text files
  have led : files.target "cache.json" = .ok ["w", "cache.json"] := by decide +kernel
  exact ⟨led, load_flush led⟩

end Caches
end Marginalia
