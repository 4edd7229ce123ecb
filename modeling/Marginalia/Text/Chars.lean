/-
Module: Marginalia.Text.Chars
Purpose: Texts as lists of characters: blanks, trimming, cutting, splitting and joining.
Main exports:
  isBlank, trim, trimStart, trimEnd, after?, before?, cut?, splitOn, joinWith
-/

namespace Marginalia.Text

/-! ### Blanks -/

/-- A character with the property `White_Space`. -/
def isBlank (c : Char) : Bool :=
  let code := c.toNat
  (0x09 ≤ code && code ≤ 0x0D) || code == 0x20 || code == 0x85 || code == 0xA0
    || code == 0x1680 || (0x2000 ≤ code && code ≤ 0x200A)
    || code == 0x2028 || code == 0x2029 || code == 0x202F || code == 0x205F || code == 0x3000

/-- Drop the blanks at the start. -/
def trimStart (cs : List Char) : List Char :=
  cs.dropWhile isBlank

/-- Drop the characters of a class at the end. -/
def dropEndWhile (p : Char → Bool) (cs : List Char) : List Char :=
  (cs.reverse.dropWhile p).reverse

/-- Drop the blanks at the end. -/
def trimEnd (cs : List Char) : List Char :=
  dropEndWhile isBlank cs

/-- Drop the blanks at both ends. -/
def trim (cs : List Char) : List Char :=
  trimEnd (trimStart cs)

/-! ### Cutting -/

/-- What follows `lead` in a text that starts with it. -/
def after? : (lead cs : List Char) → Option (List Char)
  | [], cs => some cs
  | _ :: _, [] => none
  | l :: lead, c :: cs => if l = c then after? lead cs else none

/-- What precedes `tail` in a text that ends with it. -/
def before? (tail cs : List Char) : Option (List Char) :=
  (after? tail.reverse cs.reverse).map List.reverse

/-- The parts of a text before and after the first occurrence of `sep`. -/
def cut? (sep : List Char) : List Char → Option (List Char × List Char)
  | [] => (after? sep []).map ([], ·)
  | c :: cs =>
    match after? sep (c :: cs) with
    | some rest => some ([], rest)
    | none => (cut? sep cs).map fun (head, rest) => (c :: head, rest)

/-! ### Splitting and joining -/

/-- The pieces of a text between the occurrences of `sep`; always at least one. -/
def splitOn (sep : Char) : List Char → List (List Char)
  | [] => [[]]
  | c :: cs =>
    if c = sep then [] :: splitOn sep cs
    else match splitOn sep cs with
      | [] => [[c]]
      | piece :: pieces => (c :: piece) :: pieces

/-- The pieces with `sep` between each two. -/
def joinWith (sep : List Char) : List (List Char) → List Char
  | [] => []
  | [piece] => piece
  | piece :: pieces => piece ++ sep ++ joinWith sep pieces

/-! ### Numbers -/

/-- The decimal digits of a number. -/
def decimal (n : Nat) : List Char :=
  Nat.toDigits 10 n

end Marginalia.Text
