/-
Module: Marginalia.Toml.Document
Purpose: TOML documents of strings, booleans, lists and tables.
Main exports:
  Toml.Item, Toml.Table, Toml.parse?
-/
import Marginalia.Toml.Text

namespace Marginalia.Toml

/-!
Numbers and dates are not read: a document with one is refused, as is one with lists of tables in
double brackets.
-/

/-- How a table came to be, which decides what may be added to it. -/
inductive Origin where
  /-- On the way to a table with a header. -/
  | implicit
  /-- By a key with dots. -/
  | dotted
  /-- By a header. -/
  | header
  /-- Between braces. -/
  | braces
deriving Repr, DecidableEq

/-- A value. -/
inductive Item where
  | text (s : String)
  | flag (b : Bool)
  | list (items : List Item)
  | table (origin : Origin) (entries : List (String × Item))

/-- The entries of a table. -/
abbrev Table := List (String × Item)

namespace Table

/-- Exchange or add an entry. -/
def set (t : Table) (key : String) (item : Item) : Table :=
  if t.any (·.1 == key) then t.map fun e => if e.1 == key then (key, item) else e
  else t ++ [(key, item)]

/-- Change the table at the end of a path, made on the way where it is missing. Keys with dots may
not reach into a table that has a header, and nothing may reach into braces. -/
def change (dotted : Bool) (f : Table → Option Table) : (path : List String) → Table → Option Table
  | [], t => f t
  | key :: path, t =>
    match t.lookup key with
    | none => do
      let inner ← change dotted f path []
      return t.set key (.table (if dotted then .dotted else .implicit) inner)
    | some (.table origin inner) =>
      if origin == .braces || (dotted && origin == .header) then none
      else do
        let inner ← change dotted f path inner
        return t.set key (.table origin inner)
    | some _ => none

/-- Add a value under a key that is not there yet. -/
def add (path : List String) (key : String) (item : Item) (t : Table) : Option Table :=
  change true (fun inner => if inner.any (·.1 == key) then none else some (inner.set key item))
    path t

/-- Open the table of a header. One that has a header, or that a key with dots or braces made, may
not be opened. -/
def openHeader (path : List String) (key : String) (t : Table) : Option Table :=
  change false
    (fun inner =>
      match inner.lookup key with
      | none => some (inner.set key (.table .header []))
      | some (.table .implicit entries) => some (inner.set key (.table .header entries))
      | some _ => none)
    path t

end Table

/-! ### Values -/

/-- The items of a list after its bracket, and what follows it; at most `n`. -/
def listItems? (value? : List Char → Option (Item × List Char)) :
    (n : Nat) → List Char → Option (List Item × List Char)
  | 0, _ => none
  | n + 1, cs =>
    match skipGap cs with
    | ']' :: rest => some ([], rest)
    | body => do
      let (item, rest) ← value? body
      match skipGap rest with
      | ',' :: rest =>
        let (items, rest) ← listItems? value? n rest
        return (item :: items, rest)
      | ']' :: rest => return ([item], rest)
      | _ => none

/-- A key, an equals sign and a value. -/
def pair? (value? : List Char → Option (Item × List Char)) (cs : List Char) :
    Option ((List String × String × Item) × List Char) := do
  let (path, key, rest) ← key? cs
  match skipBlanks rest with
  | '=' :: rest =>
    let (item, rest) ← value? (skipBlanks rest)
    return ((path, key, item), rest)
  | _ => none

/-- The entries between braces from an entry on, and what follows; at most `n`. -/
def braceEntries? (value? : List Char → Option (Item × List Char)) :
    (n : Nat) → Table → List Char → Option (Table × List Char)
  | 0, _, _ => none
  | n + 1, t, cs => do
    let ((path, key, item), rest) ← pair? value? cs
    let t ← t.add path key item
    match skipBlanks rest with
    | ',' :: rest => braceEntries? value? n t rest
    | '\x7d' :: rest => return (t, rest)
    | _ => none

/-- A value in which values are nested at most `depth` deep, and what follows it. -/
def value? : (depth : Nat) → List Char → Option (Item × List Char)
  | 0, _ => none
  | depth + 1, cs =>
    match cs with
    | '[' :: rest =>
      (listItems? (value? depth) (rest.length + 1) rest).map fun (items, rest) =>
        (.list items, rest)
    | '\x7b' :: rest =>
      match skipBlanks rest with
      | '\x7d' :: rest => some (.table .braces [], rest)
      | body =>
        (braceEntries? (value? depth) (body.length + 1) [] body).map fun (t, rest) =>
          (.table .braces t, rest)
    | 't' :: 'r' :: 'u' :: 'e' :: rest => some (.flag true, rest)
    | 'f' :: 'a' :: 'l' :: 's' :: 'e' :: rest => some (.flag false, rest)
    | _ => (string? cs).map fun (s, rest) => (.text (String.ofList s), rest)

/-! ### Documents -/

/-- The lines of a document, at most `n`; `path` leads to the table of the last header. -/
def lines? : (n : Nat) → (path : List String) → Table → List Char → Option Table
  | 0, _, _, _ => none
  | n + 1, path, t, cs =>
    match skipBlanks cs with
    | [] => some t
    | '[' :: rest => do
      let (parents, key, rest) ← key? rest
      match skipBlanks rest with
      | ']' :: rest =>
        let t ← t.openHeader parents key
        lines? n (parents ++ [key]) t (← lineEnd? rest)
      | _ => none
    | body =>
      match lineEnd? body with
      | some rest => lines? n path t rest
      | none => do
        let ((inner, key, item), rest) ← pair? (value? (body.length + 1)) body
        let t ← Table.change false (Table.add inner key item) path t
        lines? n path t (← lineEnd? rest)

/-- The table of a document; there is none when the text is no document. A byte order mark at the
start is passed over. -/
def parse? (text : String) : Option Table :=
  let cs := text.toList
  let cs := if cs.head? == some (Char.ofNat 0xFEFF) then cs.drop 1 else cs
  lines? (cs.length + 2) [] [] cs

end Marginalia.Toml
