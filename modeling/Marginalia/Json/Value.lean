/-
Module: Marginalia.Json.Value
Purpose: JSON documents and their compact and indented texts.
Main exports:
  Json.Value, Json.compact, Json.indented
-/
import Marginalia.Json.Quoted
import Marginalia.Text.Chars

namespace Marginalia.Json

/-- A JSON document. The members of an object are written in the order given. -/
inductive Value where
  | number (n : Nat)
  | string (s : String)
  | list (items : List Value)
  | object (members : List (String × Value))

/-- A list of strings. -/
def Value.strings (items : List String) : Value :=
  .list (items.map .string)

mutual

/-- A document without blanks. -/
def compact : Value → List Char
  | .number n => Text.decimal n
  | .string s => quote s.toList
  | .list items => '[' :: compactItems true items
  | .object members => '\x7b' :: compactMembers true members

/-- Items, with commas between them, and the closing bracket. -/
def compactItems (first : Bool) : List Value → List Char
  | [] => [']']
  | v :: rest => (if first then [] else [',']) ++ compact v ++ compactItems false rest

/-- Members, with commas between them, and the closing brace. -/
def compactMembers (first : Bool) : List (String × Value) → List Char
  | [] => ['\x7d']
  | (key, v) :: rest =>
    (if first then [] else [',']) ++ quote key.toList ++ ':' :: compact v ++
      compactMembers false rest

end

/-- A new line with two blanks for every level. -/
def newLine (level : Nat) : List Char :=
  '\n' :: List.replicate (2 * level) ' '

mutual

/-- A document with every item and member on a line of its own. -/
def indented (level : Nat) : Value → List Char
  | .number n => Text.decimal n
  | .string s => quote s.toList
  | .list [] => ['[', ']']
  | .list items => '[' :: indentedItems level true items
  | .object [] => ['\x7b', '\x7d']
  | .object members => '\x7b' :: indentedMembers level true members

/-- Items on lines of their own, and the closing bracket. -/
def indentedItems (level : Nat) (first : Bool) : List Value → List Char
  | [] => newLine level ++ [']']
  | v :: rest =>
    (if first then [] else [',']) ++ newLine (level + 1) ++ indented (level + 1) v ++
      indentedItems level false rest

/-- Members on lines of their own, and the closing brace. -/
def indentedMembers (level : Nat) (first : Bool) : List (String × Value) → List Char
  | [] => newLine level ++ ['\x7d']
  | (key, v) :: rest =>
    (if first then [] else [',']) ++ newLine (level + 1) ++ quote key.toList ++ ':' :: ' ' ::
      indented (level + 1) v ++ indentedMembers level false rest

end

end Marginalia.Json
