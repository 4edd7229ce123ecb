/-
Module: Marginalia.Text.Utf8
Purpose: UTF-8 encoding of texts, and decoding with an exact account of the first fault.
Main exports:
  Bytes, encode, decode, Fault, decodeLossy
-/

namespace Marginalia

/-- The content of a file. -/
abbrev Bytes := List UInt8

namespace Utf8

/-! ### Encoding -/

/-- The bytes of one character. -/
def encodeChar (c : Char) : Bytes :=
  let code := c.toNat
  if code < 0x80 then [code.toUInt8]
  else if code < 0x800 then
    [(0xC0 + code / 0x40).toUInt8, (0x80 + code % 0x40).toUInt8]
  else if code < 0x10000 then
    [(0xE0 + code / 0x1000).toUInt8, (0x80 + code / 0x40 % 0x40).toUInt8,
      (0x80 + code % 0x40).toUInt8]
  else
    [(0xF0 + code / 0x40000).toUInt8, (0x80 + code / 0x1000 % 0x40).toUInt8,
      (0x80 + code / 0x40 % 0x40).toUInt8, (0x80 + code % 0x40).toUInt8]

/-- The bytes of a text. -/
def encode (cs : List Char) : Bytes :=
  cs.flatMap encodeChar

/-- The number of bytes of a text. -/
def size : List Char → Nat
  | [] => 0
  | c :: cs => c.utf8Size + size cs

/-! ### Decoding -/

/-- What the bytes at one position are: a character with the number of its bytes, an invalid
sequence of some length, or the start of a sequence that the end of the input cuts off. -/
inductive Step where
  | char (c : Char) (width : Nat)
  | invalid (length : Nat)
  | incomplete (length : Nat)
deriving Repr, DecidableEq

/-- A byte that continues a sequence. -/
def isTail (b : UInt8) : Bool :=
  0x80 ≤ b.toNat && b.toNat ≤ 0xBF

/-- The values that the second byte of a sequence may have, given the first. -/
def secondRange (lead : Nat) : Nat × Nat :=
  if lead = 0xE0 then (0xA0, 0xBF)
  else if lead = 0xED then (0x80, 0x9F)
  else if lead = 0xF0 then (0x90, 0xBF)
  else if lead = 0xF4 then (0x80, 0x8F)
  else (0x80, 0xBF)

/-- The number of bytes of a sequence, given the first; 0 for a byte that starts none. -/
def width (lead : Nat) : Nat :=
  if lead < 0x80 then 1
  else if lead < 0xC2 then 0
  else if lead < 0xE0 then 2
  else if lead < 0xF0 then 3
  else if lead < 0xF5 then 4
  else 0

/-- The first byte's share of the code point. -/
def leadBits (lead : Nat) : Nat :=
  match width lead with
  | 1 => lead
  | 2 => lead - 0xC0
  | 3 => lead - 0xE0
  | _ => lead - 0xF0

/-- The continuation bytes of a sequence of which `seen` bytes have been read. -/
def tailStep (seen : Nat) (code : Nat) : (missing : Nat) → Bytes → Step
  | 0, _ => .char (Char.ofNat code) seen
  | _ + 1, [] => .incomplete seen
  | missing + 1, b :: rest =>
    if isTail b then tailStep (seen + 1) (code * 0x40 + (b.toNat - 0x80)) missing rest
    else .invalid seen

/-- Read the sequence at the start of a non-empty input. -/
def step (lead : UInt8) (rest : Bytes) : Step :=
  let l := lead.toNat
  match width l with
  | 0 => .invalid 1
  | 1 => .char (Char.ofNat l) 1
  | n + 2 =>
    match rest with
    | [] => .incomplete 1
    | second :: rest =>
      let (lo, hi) := secondRange l
      if lo ≤ second.toNat ∧ second.toNat ≤ hi then
        tailStep 2 (leadBits l * 0x40 + (second.toNat - 0x80)) n rest
      else .invalid 1

/-- Where and how the first fault of an input shows. -/
inductive Fault where
  | invalid (length index : Nat)
  | incomplete (index : Nat)
deriving Repr, DecidableEq, Inhabited

/-- The wording of a fault. -/
def Fault.message : Fault → String
  | .invalid length index =>
    s!"invalid utf-8 sequence of {length} bytes from index {index}"
  | .incomplete index =>
    s!"incomplete utf-8 byte sequence from index {index}"

/-- Decode from the byte at `index`; `skip` counts the bytes of the last character still ahead. -/
def decodeFrom (index : Nat) : (skip : Nat) → Bytes → Except Fault (List Char)
  | _, [] => .ok []
  | skip + 1, _ :: rest => decodeFrom (index + 1) skip rest
  | 0, b :: rest =>
    match step b rest with
    | .char c n => (decodeFrom (index + 1) (n - 1) rest).map (c :: ·)
    | .invalid length => .error (.invalid length index)
    | .incomplete _ => .error (.incomplete index)

/-- The text that the bytes encode, or the first fault. -/
def decode (bytes : Bytes) : Except Fault (List Char) :=
  decodeFrom 0 0 bytes

/-- Decode with every fault shown as U+FFFD. -/
def decodeLossyFrom : (skip : Nat) → Bytes → List Char
  | _, [] => []
  | skip + 1, _ :: rest => decodeLossyFrom skip rest
  | 0, b :: rest =>
    match step b rest with
    | .char c n => c :: decodeLossyFrom (n - 1) rest
    | .invalid n => Char.ofNat 0xFFFD :: decodeLossyFrom (n - 1) rest
    | .incomplete n => Char.ofNat 0xFFFD :: decodeLossyFrom (n - 1) rest

/-- The text that the bytes encode, each fault shown as U+FFFD. -/
def decodeLossy (bytes : Bytes) : List Char :=
  decodeLossyFrom 0 bytes

/-- The bytes of a string. -/
def ofString (s : String) : Bytes :=
  encode s.toList

/-- The string that the bytes encode, or the first fault. -/
def toString (bytes : Bytes) : Except Fault String :=
  (decode bytes).map String.ofList

end Utf8
end Marginalia
