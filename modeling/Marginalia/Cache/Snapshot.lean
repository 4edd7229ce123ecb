/-
Module: Marginalia.Cache.Snapshot
Purpose: The resolver's stores as a file: sections of entries, written as JSON.
Main exports:
  Snapshot, Snapshot.render, Snapshot.parse?, Snapshot.read, Snapshot.write,
  ModuleCache.restore, ModuleCache.capture
-/
import Marginalia.Cache.Strings
import Marginalia.FileTree
import Marginalia.Json.Value
import Marginalia.Text.Utf8

namespace Marginalia

/-- Sections of entries, by name. -/
abbrev Snapshot := Dict String (Dict String String)

namespace Snapshot

/-! ### Writing -/

/-- A section as a JSON document. -/
def sectionValue (entries : Dict String String) : Json.Value :=
  .object (entries.entries.map fun (k, v) => (k, .string v))

/-- The text of a snapshot, without blanks, in the order of the keys. -/
def render (s : Snapshot) : List Char :=
  Json.compact (.object (s.entries.map fun (name, entries) => (name, sectionValue entries)))

/-! ### Reading -/

/-- A blank between the parts of a JSON document. -/
def isGap (c : Char) : Bool :=
  c == ' ' || c == '\t' || c == '\n' || c == '\r'

/-- Drop the blanks at the start. -/
def skipGap (cs : List Char) : List Char :=
  cs.dropWhile isGap

/-- A key, a colon and a value. -/
def member? {α : Type} (value? : List Char → Option (α × List Char)) (cs : List Char) :
    Option ((String × α) × List Char) := do
  let (key, rest) ← Json.readString? cs
  match skipGap rest with
  | ':' :: rest =>
    let (v, rest) ← value? (skipGap rest)
    return ((String.ofList key, v), skipGap rest)
  | _ => none

/-- The members of an object after one of them, and what follows the object; at most `n`. -/
def otherMembers? {α : Type} (value? : List Char → Option (α × List Char)) :
    (n : Nat) → List Char → Option (List (String × α) × List Char)
  | 0, _ => none
  | n + 1, cs =>
    match cs with
    | '\x7d' :: rest => some ([], rest)
    | ',' :: rest => do
      let (m, rest) ← member? value? (skipGap rest)
      let (ms, rest) ← otherMembers? value? n rest
      return (m :: ms, rest)
    | _ => none

/-- An object at the start of a text, its members in order, and what follows it. -/
def object? {α : Type} (value? : List Char → Option (α × List Char)) :
    List Char → Option (List (String × α) × List Char)
  | '\x7b' :: rest =>
    match skipGap rest with
    | '\x7d' :: rest => some ([], rest)
    | body => do
      let (m, rest) ← member? value? body
      let (ms, rest) ← otherMembers? value? (rest.length + 1) rest
      return (m :: ms, rest)
  | _ => none

/-- A string value. -/
def stringValue? (cs : List Char) : Option (String × List Char) :=
  (Json.readString? cs).map fun (s, rest) => (String.ofList s, rest)

/-- A section: an object of strings. Of two members with one key the later counts. -/
def section? (cs : List Char) : Option (Dict String String × List Char) :=
  (object? stringValue? cs).map fun (ms, rest) => (Dict.ofList ms, rest)

/-- A snapshot: an object of sections and nothing after it. -/
def parse? (cs : List Char) : Option Snapshot := do
  let (ms, rest) ← object? section? (skipGap cs)
  if (skipGap rest).isEmpty then return Dict.ofList ms else none

/-! ### Files -/

/-- The snapshot that a file holds; a file that holds none counts as empty. -/
def ofBytes (bytes : Bytes) : Snapshot :=
  match Utf8.decode bytes with
  | .ok cs => (parse? cs).getD ∅
  | .error _ => ∅

/-- The file of a snapshot. -/
def toBytes (s : Snapshot) : Bytes :=
  Utf8.encode s.render

/-- Read a snapshot from a file; a missing file counts as empty. -/
def read (files : FileTree) (p : Path) : Except IoError Snapshot :=
  match files.read p with
  | .ok bytes => .ok (ofBytes bytes)
  | .error .notFound => .ok ∅
  | .error e => .error e

/-- Write a snapshot to a file. -/
def write (s : Snapshot) (files : FileTree) (p : Path) : Except IoError FileTree :=
  files.write p s.toBytes

end Snapshot

namespace ModuleCache

/-- Take the sections of the stores out of a snapshot, entries with an empty value left out; the
other sections remain. -/
def restore (snapshot : Snapshot) : ModuleCache × Snapshot :=
  StoreName.all.foldl
    (fun (cache, rest) name =>
      match rest.get? name.sectionName with
      | none => (cache, rest)
      | some entries =>
        (cache.setStore name (entries.filter fun _ v => !v.isEmpty),
          rest.erase name.sectionName))
    ({}, snapshot)

/-- Put every store into a snapshot as a section. -/
def capture (cache : ModuleCache) (snapshot : Snapshot) : Snapshot :=
  StoreName.all.foldl (fun s name => s.insert name.sectionName (cache.store name)) snapshot

end ModuleCache
end Marginalia
