/-
Module: Marginalia.Json.Quoted
Purpose: JSON strings: writing with the fewest escapes, and reading.
Main exports:
  Json.quote, Json.readString?
-/

namespace Marginalia.Json

/-! ### Writing -/

/-- A hexadecimal digit in lower case. -/
def hexDigit (n : Nat) : Char :=
  if n < 10 then Char.ofNat (0x30 + n) else Char.ofNat (0x57 + n)

/-- A character inside quotes. Only the quote, the backslash and control characters are escaped. -/
def escapeChar (c : Char) : List Char :=
  if c = '"' then ['\\', '"']
  else if c = '\\' then ['\\', '\\']
  else if c = '\x08' then ['\\', 'b']
  else if c = '\x0c' then ['\\', 'f']
  else if c = '\n' then ['\\', 'n']
  else if c = '\r' then ['\\', 'r']
  else if c = '\t' then ['\\', 't']
  else if c.toNat < 0x20 then
    ['\\', 'u', '0', '0', hexDigit (c.toNat / 16), hexDigit (c.toNat % 16)]
  else [c]

/-- A text between quotes. -/
def quote (cs : List Char) : List Char :=
  '"' :: cs.flatMap escapeChar ++ ['"']

/-! ### Reading -/

/-- The value of a hexadecimal digit. -/
def hexValue? (c : Char) : Option Nat :=
  if c.isDigit then some (c.toNat - 0x30)
  else if 'a' ≤ c ∧ c ≤ 'f' then some (c.toNat - 0x57)
  else if 'A' ≤ c ∧ c ≤ 'F' then some (c.toNat - 0x37)
  else none

/-- The value of four hexadecimal digits. -/
def hex4? : List Char → Option Nat
  | a :: b :: c :: d :: _ => do
    return (((← hexValue? a) * 16 + (← hexValue? b)) * 16 + (← hexValue? c)) * 16 + (← hexValue? d)
  | _ => none

/-- The characters that stand for themselves or for a control character after a backslash. -/
def simpleEscape? : Char → Option Char
  | '"' => some '"'
  | '\\' => some '\\'
  | '/' => some '/'
  | 'b' => some '\x08'
  | 'f' => some '\x0c'
  | 'n' => some '\n'
  | 'r' => some '\r'
  | 't' => some '\t'
  | _ => none

/-- The character that an escape stands for and how many characters follow the backslash. A code
unit from the high half of the surrogates needs one from the low half after it. -/
def escape? : List Char → Option (Char × Nat)
  | 'u' :: rest => do
    let unit ← hex4? rest
    if 0xD800 ≤ unit ∧ unit < 0xDC00 then
      match rest.drop 4 with
      | '\\' :: 'u' :: more =>
        let low ← hex4? more
        if 0xDC00 ≤ low ∧ low < 0xE000 then
          return (Char.ofNat (0x10000 + (unit - 0xD800) * 0x400 + (low - 0xDC00)), 11)
        else none
      | _ => none
    else if 0xDC00 ≤ unit ∧ unit < 0xE000 then none
    else return (Char.ofNat unit, 5)
  | c :: _ => (simpleEscape? c).map (·, 1)
  | [] => none

/-- The rest of a string after its first quote, and what follows it; `skip` characters belong to an
escape. -/
def stringTail? : (skip : Nat) → List Char → Option (List Char × List Char)
  | _, [] => none
  | skip + 1, _ :: rest => stringTail? skip rest
  | 0, c :: rest =>
    if c = '"' then some ([], rest)
    else if c = '\\' then
      match escape? rest with
      | none => none
      | some (e, n) => (stringTail? n rest).map fun (s, after) => (e :: s, after)
    else if c.toNat < 0x20 then none
    else (stringTail? 0 rest).map fun (s, after) => (c :: s, after)

/-- A string at the start of a text, and what follows it. -/
def readString? : List Char → Option (List Char × List Char)
  | c :: rest => if c = '"' then stringTail? 0 rest else none
  | [] => none

end Marginalia.Json
