/-
Module: Marginalia.Toml.Text
Purpose: The words of TOML documents: blanks, comments, strings and keys.
Main exports:
  Toml.skipBlanks, Toml.skipGap, Toml.lineEnd?, Toml.string?, Toml.key?
-/
import Marginalia.Json.Quoted
import Marginalia.Text.Chars

namespace Marginalia.Toml

/-! ### Between words -/

/-- A blank inside a line. -/
def isBlank (c : Char) : Bool := c == ' ' || c == '\t'

/-- A character that may stand in a comment or a string: no control character but the tab. -/
def isPlain (c : Char) : Bool :=
  c == '\t' || (0x20 ≤ c.toNat && c.toNat != 0x7F)

/-- Drop the blanks at the start. -/
def skipBlanks (cs : List Char) : List Char := cs.dropWhile isBlank

/-- What follows a newline at the start of a text. -/
def newline? : List Char → Option (List Char)
  | '\n' :: rest => some rest
  | '\r' :: '\n' :: rest => some rest
  | _ => none

/-- A comment at the start of a text is passed over. -/
def skipComment : List Char → List Char
  | '#' :: rest => rest.dropWhile isPlain
  | cs => cs

/-- What follows the end of a line: blanks, perhaps a comment, and a newline or the end. -/
def lineEnd? (cs : List Char) : Option (List Char) :=
  match skipComment (skipBlanks cs) with
  | [] => some []
  | rest => newline? rest

/-- Blanks, comments and newlines, in at most `n` lines, are passed over. -/
def skipLines : (n : Nat) → List Char → List Char
  | 0, cs => cs
  | n + 1, cs =>
    let rest := skipComment (skipBlanks cs)
    match newline? rest with
    | some after => skipLines n after
    | none => rest

/-- Blanks, comments and newlines are passed over. -/
def skipGap (cs : List Char) : List Char := skipLines (cs.length + 1) cs

/-! ### Strings -/

/-- The value of hexadecimal digits. -/
def hex? (digits : List Char) : Option Nat :=
  digits.foldlM (fun acc d => (Json.hexValue? d).map (acc * 16 + ·)) 0

/-- The character with a code point, if it is one of a character. -/
def scalar? (code : Nat) : Option Char :=
  if code < 0xD800 ∨ (0xE000 ≤ code ∧ code < 0x110000) then some (Char.ofNat code) else none

/-- The character that an escape stands for and how many characters follow the backslash. -/
def escape? : List Char → Option (Char × Nat)
  | 'b' :: _ => some ('\x08', 1)
  | 'f' :: _ => some ('\x0c', 1)
  | 'n' :: _ => some ('\n', 1)
  | 'r' :: _ => some ('\r', 1)
  | 't' :: _ => some ('\t', 1)
  | '"' :: _ => some ('"', 1)
  | '\\' :: _ => some ('\\', 1)
  | 'u' :: rest => do
    if rest.length < 4 then none
    return (← scalar? (← hex? (rest.take 4)), 5)
  | 'U' :: rest => do
    if rest.length < 8 then none
    return (← scalar? (← hex? (rest.take 8)), 9)
  | _ => none

/-- The rest of a string on one line after its first quote; `skip` characters belong to an escape,
and only with `escapes` does a backslash begin one. -/
def lineString? (quote : Char) (escapes : Bool) :
    (skip : Nat) → List Char → Option (List Char × List Char)
  | _, [] => none
  | skip + 1, _ :: rest => lineString? quote escapes skip rest
  | 0, c :: rest =>
    if c = quote then some ([], rest)
    else if escapes ∧ c = '\\' then
      match escape? rest with
      | none => none
      | some (e, n) =>
        (lineString? quote escapes n rest).map fun (s, after) => (e :: s, after)
    else if isPlain c then
      (lineString? quote escapes 0 rest).map fun (s, after) => (c :: s, after)
    else none

/-- The number of characters of a backslash at the end of a line, after the backslash: blanks, a
newline and all blanks and newlines after it. -/
def continuation? (cs : List Char) : Option Nat :=
  match newline? (skipBlanks cs) with
  | none => none
  | some _ =>
    some (cs.takeWhile fun c => isBlank c || c == '\n' || c == '\r').length

/-- The rest of a string that may span lines, after its three quotes. Up to two quotes may stand
before the three that end it. -/
def blockString? (quote : Char) (escapes : Bool) :
    (skip : Nat) → List Char → Option (List Char × List Char)
  | _, [] => none
  | skip + 1, _ :: rest => blockString? quote escapes skip rest
  | 0, c :: rest =>
    if c = quote then
      let run := 1 + (rest.takeWhile (· == quote)).length
      if 3 ≤ run then
        let kept := min (run - 3) 2
        some (List.replicate kept quote, (c :: rest).drop (kept + 3))
      else (blockString? quote escapes 0 rest).map fun (s, after) => (c :: s, after)
    else if escapes ∧ c = '\\' then
      match continuation? rest with
      | some n => blockString? quote escapes n rest
      | none =>
        match escape? rest with
        | none => none
        | some (e, n) =>
          (blockString? quote escapes n rest).map fun (s, after) => (e :: s, after)
    else if c = '\r' then
      if rest.head? = some '\n' then
        (blockString? quote escapes 0 rest)
      else none
    else if isPlain c ∨ c = '\n' then
      (blockString? quote escapes 0 rest).map fun (s, after) => (c :: s, after)
    else none

/-- A string after its first quote. -/
def stringTail? (quote : Char) (escapes : Bool) (rest : List Char) :
    Option (List Char × List Char) :=
  match rest with
  | a :: b :: inner =>
    if a = quote ∧ b = quote then
      blockString? quote escapes 0 ((newline? inner).getD inner)
    else lineString? quote escapes 0 rest
  | _ => lineString? quote escapes 0 rest

/-- A string of any of the four forms. -/
def string? : List Char → Option (List Char × List Char)
  | '"' :: rest => stringTail? '"' true rest
  | '\'' :: rest => stringTail? '\'' false rest
  | _ => none

/-! ### Keys -/

/-- A character of a key without quotes. -/
def isKeyChar (c : Char) : Bool :=
  c.isAlphanum || c == '_' || c == '-'

/-- A key without dots. -/
def simpleKey? : List Char → Option (String × List Char)
  | '"' :: rest => (lineString? '"' true 0 rest).map fun (s, after) => (String.ofList s, after)
  | '\'' :: rest => (lineString? '\'' false 0 rest).map fun (s, after) => (String.ofList s, after)
  | cs =>
    let word := cs.takeWhile isKeyChar
    if word.isEmpty then none else some (String.ofList word, cs.drop word.length)

/-- The parts of a key after its first, at most `n`. -/
def keyParts? : (n : Nat) → List Char → Option (List String × List Char)
  | 0, _ => none
  | n + 1, cs =>
    match skipBlanks cs with
    | '.' :: rest => do
      let (part, after) ← simpleKey? (skipBlanks rest)
      let (parts, after) ← keyParts? n after
      return (part :: parts, after)
    | rest => some ([], rest)

/-- A key: its parts but the last, the last, and what follows it. -/
def key? (cs : List Char) : Option (List String × String × List Char) := do
  let (first, rest) ← simpleKey? (skipBlanks cs)
  let (others, rest) ← keyParts? (rest.length + 1) rest
  let parts := first :: others
  return (parts.dropLast, parts.getLast?.getD first, rest)

end Marginalia.Toml
