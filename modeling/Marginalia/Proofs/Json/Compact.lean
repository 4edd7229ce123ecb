/-
Module: Marginalia.Proofs.Json.Compact
Purpose: The form of JSON texts without blanks: how characters are escaped and members are joined.
Main exports:
  Escaped, IsQuoted, IsObject, isQuoted_quote, isObject_compact
-/
import Marginalia.Json.Value
import Marginalia.Proofs.Text.Chars
import Marginalia.Text.Utf8

namespace Marginalia.Json

/-! ### Strings -/

/-- The characters that have an escape of two characters, with the second of them. -/
def shortEscapes : List (Char × Char) :=
  [('"', '"'), ('\\', '\\'), ('\x08', 'b'), ('\x0c', 'f'), ('\n', 'n'), ('\r', 'r'), ('\t', 't')]

/-- How a character is written between quotes. Control characters are escaped, by their code where
they have no short escape; of the others only the quote and the backslash are. -/
inductive Escaped : Char → List Char → Prop
  | short {c d : Char} (pair : (c, d) ∈ shortEscapes) : Escaped c ['\\', d]
  | code {c : Char} (control : c.toNat < 0x20) (long : ∀ d, (c, d) ∉ shortEscapes) :
    Escaped c ['\\', 'u', '0', '0', Nat.digitChar (c.toNat / 16), Nat.digitChar (c.toNat % 16)]
  | plain {c : Char} (printed : 0x20 ≤ c.toNat) (long : ∀ d, (c, d) ∉ shortEscapes) : Escaped c [c]

/-- A text between quotes. -/
def IsQuoted (cs text : List Char) : Prop :=
  ∃ pieces, List.Forall₂ Escaped cs pieces ∧ text = '"' :: pieces.flatten ++ ['"']

theorem hexDigit_eq {n : Nat} (small : n < 16) : hexDigit n = Nat.digitChar n := by
  interval_cases n <;> rfl

theorem escaped_escapeChar (c : Char) : Escaped c (escapeChar c) := by
  have long
      (ordinary : c ≠ '"' ∧ c ≠ '\\' ∧ c ≠ '\x08' ∧ c ≠ '\x0c' ∧ c ≠ '\n' ∧ c ≠ '\r' ∧ c ≠ '\t')
      (d : Char) : (c, d) ∉ shortEscapes := by
    simp [shortEscapes, ordinary]
  unfold escapeChar
  split_ifs with quote slash backspace feed newline return_ tab control
  · exact .short (by simp [shortEscapes, quote])
  · exact .short (by simp [shortEscapes, slash])
  · exact .short (by simp [shortEscapes, backspace])
  · exact .short (by simp [shortEscapes, feed])
  · exact .short (by simp [shortEscapes, newline])
  · exact .short (by simp [shortEscapes, return_])
  · exact .short (by simp [shortEscapes, tab])
  · rw [hexDigit_eq (by omega), hexDigit_eq (by omega)]
    exact .code control (long ⟨quote, slash, backspace, feed, newline, return_, tab⟩)
  · exact .plain (Nat.le_of_not_lt control)
      (long ⟨quote, slash, backspace, feed, newline, return_, tab⟩)

theorem isQuoted_quote (cs : List Char) : IsQuoted cs (quote cs) := by
  refine ⟨cs.map escapeChar, ?_, ?_⟩
  · rw [List.forall₂_map_right_iff, List.forall₂_same]
    intro c _
    exact escaped_escapeChar c
  · rw [quote, List.flatMap_def]

/-! ### Objects -/

/-- An object without blanks: quoted keys with their values, joined by commas, in the order of the
bytes of the keys. -/
def IsObject {α : Type} (IsValue : α → List Char → Prop) (entries : List (String × α))
    (text : List Char) : Prop :=
  (entries.map fun e => Utf8.ofString e.1).Pairwise (· < ·) ∧
    ∃ members, List.Forall₂ (fun e member => ∃ key value, IsQuoted e.1.toList key ∧
        IsValue e.2 value ∧ member = key ++ ':' :: value) entries members ∧
      text = '\x7b' :: Text.joinWith [','] members ++ ['\x7d']

/-- The text of a member. -/
def memberText (m : String × Value) : List Char :=
  quote m.1.toList ++ ':' :: compact m.2

theorem compactMembers_eq (members : List (String × Value)) :
    compactMembers true members = Text.joinWith [','] (members.map memberText) ++ ['\x7d'] := by
  have others (m : String × Value) (rest : List (String × Value)) :
      memberText m ++ compactMembers false rest =
        Text.joinWith [','] ((m :: rest).map memberText) ++ ['\x7d'] := by
    induction rest generalizing m with
    | nil => simp [compactMembers, Text.joinWith]
    | cons next rest ih =>
      have tail := ih next
      rw [List.map_cons] at tail
      rw [List.map_cons, List.map_cons, Text.joinWith_cons (List.cons_ne_nil _ _), compactMembers]
      simp only [Bool.false_eq_true, if_false, List.append_assoc]
      rw [← tail]
      simp [memberText]
  cases members with
  | nil => simp [compactMembers, Text.joinWith]
  | cons m rest =>
    rw [← others m rest]
    simp [compactMembers, memberText]

/-- The compact text of an object with keys in order has its form. -/
theorem isObject_compact {α : Type} {IsValue : α → List Char → Prop} {write : α → Value}
    (values : ∀ a, IsValue a (compact (write a))) {entries : List (String × α)}
    (order : (entries.map fun e => Utf8.ofString e.1).Pairwise (· < ·)) :
    IsObject IsValue entries (compact (.object (entries.map fun e => (e.1, write e.2)))) := by
  refine ⟨order, entries.map fun e => memberText (e.1, write e.2), ?_, ?_⟩
  · rw [List.forall₂_map_right_iff, List.forall₂_same]
    intro e _
    exact ⟨_, _, isQuoted_quote _, values e.2, rfl⟩
  · rw [compact, compactMembers_eq, List.map_map]
    rfl

end Marginalia.Json
