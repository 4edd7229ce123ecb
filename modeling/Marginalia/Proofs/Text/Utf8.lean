/-
Module: Marginalia.Proofs.Text.Utf8
Purpose: Decoding is the inverse of encoding: it accepts exactly the encodings of texts.
Main exports:
  decode_eq_ok_iff, decode_encode, encode_append, encode_injective, length_encode, size_append,
  encode_lt_encode
-/
import Marginalia.Text.Utf8
import Mathlib.Tactic

namespace Marginalia.Utf8

/-! ### Bytes and code points as numbers -/

theorem toNat_toUInt8 {n : Nat} (small : n < 256) : n.toUInt8.toNat = n := by
  simp
  omega

theorem toUInt8_eq {n : Nat} {b : UInt8} (same : n = b.toNat) : n.toUInt8 = b := by
  subst same
  simp

/-- A number outside the surrogates is the number of its character. -/
theorem toNat_ofNat {code : Nat} (scalar : code < 0xD800 ∨ 0xDFFF < code ∧ code < 0x110000) :
    (Char.ofNat code).toNat = code := by
  have valid : code.isValidChar := scalar
  rw [Char.ofNat, dif_pos valid]
  rfl

/-- What the first byte of a sequence says about its width. -/
theorem width_cases (lead : Nat) :
    (lead < 0x80 ∧ width lead = 1) ∨ (0xC2 ≤ lead ∧ lead < 0xE0 ∧ width lead = 2) ∨
      (0xE0 ≤ lead ∧ lead < 0xF0 ∧ width lead = 3) ∨
      (0xF0 ≤ lead ∧ lead < 0xF5 ∧ width lead = 4) ∨ width lead = 0 := by
  unfold width
  split_ifs <;> simp <;> omega

/-! ### One character -/

/-- The bytes of a character read back as that character, whatever follows them. -/
theorem step_encodeChar (c : Char) : ∃ lead tail, encodeChar c = lead :: tail ∧
    ∀ rest, step lead (tail ++ rest) = .char c (tail.length + 1) := by
  have scalar : c.toNat < 0xD800 ∨ 0xDFFF < c.toNat ∧ c.toNat < 0x110000 := c.valid
  have back : Char.ofNat c.toNat = c := Char.ofNat_toNat c
  unfold encodeChar
  simp only
  generalize c.toNat = code at *
  -- one case per number of bytes; in each the bytes are named, so that only their values remain
  split_ifs with one two three
  · refine ⟨_, _, rfl, fun rest => ?_⟩
    have lead : code.toUInt8.toNat = code := toNat_toUInt8 (by omega)
    simp [step, lead, width, one, back]
  · refine ⟨_, _, rfl, fun rest => ?_⟩
    have lead := toNat_toUInt8 (n := 0xC0 + code / 0x40) (by omega)
    have last := toNat_toUInt8 (n := 0x80 + code % 0x40) (by omega)
    have wide : width (0xC0 + code / 0x40) = 2 := by
      unfold width
      split_ifs <;> omega
    have range : secondRange (0xC0 + code / 0x40) = (0x80, 0xBF) := by
      unfold secondRange
      split_ifs <;> first | rfl | omega
    have whole : code / 0x40 * 0x40 + code % 0x40 = code := by omega
    have fits : 0x80 + code % 0x40 ≤ 0xBF := by omega
    generalize (0xC0 + code / 0x40).toUInt8 = a at *
    generalize (0x80 + code % 0x40).toUInt8 = b at *
    simp [step, lead, last, wide, range, tailStep, leadBits, whole, back, fits]
  · refine ⟨_, _, rfl, fun rest => ?_⟩
    have lead := toNat_toUInt8 (n := 0xE0 + code / 0x1000) (by omega)
    have second := toNat_toUInt8 (n := 0x80 + code / 0x40 % 0x40) (by omega)
    have last := toNat_toUInt8 (n := 0x80 + code % 0x40) (by omega)
    have wide : width (0xE0 + code / 0x1000) = 3 := by
      unfold width
      split_ifs <;> omega
    have range : (secondRange (0xE0 + code / 0x1000)).1 ≤ 0x80 + code / 0x40 % 0x40 ∧
        0x80 + code / 0x40 % 0x40 ≤ (secondRange (0xE0 + code / 0x1000)).2 := by
      unfold secondRange
      split_ifs <;> simp only <;> omega
    have whole : (code / 0x1000 * 0x40 + code / 0x40 % 0x40) * 0x40 + code % 0x40 = code := by
      omega
    have fits : 0x80 + code % 0x40 ≤ 0xBF := by omega
    generalize (0xE0 + code / 0x1000).toUInt8 = a at *
    generalize (0x80 + code / 0x40 % 0x40).toUInt8 = b at *
    generalize (0x80 + code % 0x40).toUInt8 = d at *
    simp [step, lead, second, last, wide, range, tailStep, leadBits, whole, back, fits, isTail]
  · refine ⟨_, _, rfl, fun rest => ?_⟩
    have lead := toNat_toUInt8 (n := 0xF0 + code / 0x40000) (by omega)
    have second := toNat_toUInt8 (n := 0x80 + code / 0x1000 % 0x40) (by omega)
    have third := toNat_toUInt8 (n := 0x80 + code / 0x40 % 0x40) (by omega)
    have last := toNat_toUInt8 (n := 0x80 + code % 0x40) (by omega)
    have wide : width (0xF0 + code / 0x40000) = 4 := by
      unfold width
      split_ifs <;> omega
    have range : (secondRange (0xF0 + code / 0x40000)).1 ≤ 0x80 + code / 0x1000 % 0x40 ∧
        0x80 + code / 0x1000 % 0x40 ≤ (secondRange (0xF0 + code / 0x40000)).2 := by
      unfold secondRange
      split_ifs <;> simp only <;> omega
    have whole : ((code / 0x40000 * 0x40 + code / 0x1000 % 0x40) * 0x40 +
        code / 0x40 % 0x40) * 0x40 + code % 0x40 = code := by omega
    have fits : 0x80 + code % 0x40 ≤ 0xBF := by omega
    have fits' : 0x80 + code / 0x40 % 0x40 ≤ 0xBF := by omega
    generalize (0xF0 + code / 0x40000).toUInt8 = a at *
    generalize (0x80 + code / 0x1000 % 0x40).toUInt8 = b at *
    generalize (0x80 + code / 0x40 % 0x40).toUInt8 = d at *
    generalize (0x80 + code % 0x40).toUInt8 = e at *
    simp [step, lead, second, third, last, wide, range, tailStep, leadBits, whole, back, fits,
      fits', isTail]

/-- A character that is read was written by its own bytes: there is one encoding of each. -/
theorem encodeChar_of_step {lead : UInt8} {rest : Bytes} {c : Char} {n : Nat}
    (h : step lead rest = .char c n) :
    ∃ tail after, rest = tail ++ after ∧ encodeChar c = lead :: tail ∧ n = tail.length + 1 := by
  unfold step at h
  simp only at h
  have bound := lead.toNat_lt
  rcases width_cases lead.toNat with ⟨low, wide⟩ | ⟨least, most, wide⟩ | ⟨least, most, wide⟩ |
    ⟨least, most, wide⟩ | wide
  · simp only [wide, Step.char.injEq] at h
    obtain ⟨rfl, rfl⟩ := h
    refine ⟨[], rest, rfl, ?_, rfl⟩
    have code : (Char.ofNat lead.toNat).toNat = lead.toNat := toNat_ofNat (by omega)
    simp [encodeChar, code, low]
  · rw [wide] at h
    cases rest with
    | nil => simp at h
    | cons second rest =>
      simp only at h
      split_ifs at h with range
      simp only [tailStep, leadBits, wide, Step.char.injEq] at h
      obtain ⟨rfl, rfl⟩ := h
      have range' : 0x80 ≤ second.toNat ∧ second.toNat ≤ 0xBF := by
        unfold secondRange at range
        split_ifs at range <;> simp only at range <;> omega
      refine ⟨[second], rest, rfl, ?_, rfl⟩
      generalize code_eq : (lead.toNat - 0xC0) * 0x40 + (second.toNat - 0x80) = code
      have small : 0x80 ≤ code ∧ code < 0x800 := by omega
      rw [encodeChar, toNat_ofNat (by omega)]
      simp only [Nat.not_lt.2 small.1, small.2, if_true, if_false]
      rw [toUInt8_eq (b := lead) (by omega), toUInt8_eq (b := second) (by omega)]
  · rw [wide] at h
    rcases rest with _ | ⟨second, _ | ⟨third, rest⟩⟩
    · simp at h
    · simp only [tailStep] at h
      split_ifs at h
    · simp only at h
      split_ifs at h with range
      simp only [tailStep, leadBits, wide] at h
      split_ifs at h with last
      simp only [Step.char.injEq] at h
      obtain ⟨rfl, rfl⟩ := h
      simp only [isTail, Bool.and_eq_true, decide_eq_true_eq] at last
      refine ⟨[second, third], rest, rfl, ?_, rfl⟩
      have range' : 0x80 ≤ second.toNat ∧ second.toNat ≤ 0xBF ∧
          (lead.toNat = 0xE0 → 0xA0 ≤ second.toNat) ∧ (lead.toNat = 0xED → second.toNat ≤ 0x9F) := by
        unfold secondRange at range
        split_ifs at range <;> simp only at range <;> omega
      generalize code_eq : ((lead.toNat - 0xE0) * 0x40 + (second.toNat - 0x80)) * 0x40 +
        (third.toNat - 0x80) = code
      have small : 0x800 ≤ code ∧ code < 0x10000 := by omega
      rw [encodeChar, toNat_ofNat (by omega)]
      simp only [show ¬ code < 0x80 by omega, Nat.not_lt.2 small.1, small.2, if_true, if_false]
      rw [toUInt8_eq (b := lead) (by omega), toUInt8_eq (b := second) (by omega),
        toUInt8_eq (b := third) (by omega)]
  · rw [wide] at h
    rcases rest with _ | ⟨second, _ | ⟨third, _ | ⟨fourth, rest⟩⟩⟩
    · simp at h
    · simp only [tailStep] at h
      split_ifs at h
    · simp only [tailStep] at h
      split_ifs at h
    · simp only at h
      split_ifs at h with range
      simp only [tailStep, leadBits, wide] at h
      split_ifs at h with inner last
      simp only [Step.char.injEq] at h
      obtain ⟨rfl, rfl⟩ := h
      simp only [isTail, Bool.and_eq_true, decide_eq_true_eq] at inner last
      refine ⟨[second, third, fourth], rest, rfl, ?_, rfl⟩
      have range' : 0x80 ≤ second.toNat ∧ second.toNat ≤ 0xBF ∧
          (lead.toNat = 0xF0 → 0x90 ≤ second.toNat) ∧ (lead.toNat = 0xF4 → second.toNat ≤ 0x8F) := by
        unfold secondRange at range
        split_ifs at range <;> simp only at range <;> omega
      generalize code_eq : (((lead.toNat - 0xF0) * 0x40 + (second.toNat - 0x80)) * 0x40 +
        (third.toNat - 0x80)) * 0x40 + (fourth.toNat - 0x80) = code
      have large : 0x10000 ≤ code ∧ code < 0x110000 := by omega
      rw [encodeChar, toNat_ofNat (by omega)]
      simp only [show ¬ code < 0x80 by omega, show ¬ code < 0x800 by omega, Nat.not_lt.2 large.1,
        if_false]
      rw [toUInt8_eq (b := lead) (by omega), toUInt8_eq (b := second) (by omega),
        toUInt8_eq (b := third) (by omega), toUInt8_eq (b := fourth) (by omega)]
  · simp [wide] at h

/-! ### Texts -/

@[simp] theorem encode_nil : encode [] = [] := rfl

@[simp] theorem encode_cons (c : Char) (cs : List Char) :
    encode (c :: cs) = encodeChar c ++ encode cs := rfl

theorem encode_append (cs ds : List Char) : encode (cs ++ ds) = encode cs ++ encode ds := by
  simp [encode]

theorem length_encodeChar (c : Char) : (encodeChar c).length = c.utf8Size := by
  have one : c.toNat < 0x80 ↔ c.val ≤ UInt32.ofNatLT 0x7F (by decide) := by
    rw [UInt32.le_iff_toNat_le]
    exact Nat.lt_succ_iff
  have two : c.toNat < 0x800 ↔ c.val ≤ UInt32.ofNatLT 0x7FF (by decide) := by
    rw [UInt32.le_iff_toNat_le]
    exact Nat.lt_succ_iff
  have three : c.toNat < 0x10000 ↔ c.val ≤ UInt32.ofNatLT 0xFFFF (by decide) := by
    rw [UInt32.le_iff_toNat_le]
    exact Nat.lt_succ_iff
  unfold encodeChar Char.utf8Size
  simp only [one, two, three, apply_ite List.length, List.length_cons, List.length_nil]

theorem length_encode (cs : List Char) : (encode cs).length = size cs := by
  induction cs with
  | nil => rfl
  | cons c cs ih => rw [encode_cons, List.length_append, length_encodeChar, ih, size]

@[simp] theorem size_nil : size [] = 0 := rfl

@[simp] theorem size_cons (c : Char) (cs : List Char) : size (c :: cs) = c.utf8Size + size cs := rfl

theorem size_append (cs ds : List Char) : size (cs ++ ds) = size cs + size ds := by
  induction cs with
  | nil => simp
  | cons c cs ih => simp [ih, Nat.add_assoc]

theorem size_pos {cs : List Char} (nonempty : cs ≠ []) : 0 < size cs := by
  obtain ⟨c, cs, rfl⟩ := List.exists_cons_of_ne_nil nonempty
  have := c.utf8Size_pos
  rw [size_cons]
  omega

/-- The bytes that belong to the character before are passed over. -/
theorem decodeFrom_skip (index : Nat) (skipped rest : Bytes) :
    decodeFrom index skipped.length (skipped ++ rest) =
      decodeFrom (index + skipped.length) 0 rest := by
  induction skipped generalizing index with
  | nil => rfl
  | cons b skipped ih =>
    simp only [List.length_cons, List.cons_append, decodeFrom, ih]
    congr 1
    omega

/-- The bytes of a text decode to that text. -/
theorem decodeFrom_encode (index : Nat) (cs : List Char) :
    decodeFrom index 0 (encode cs) = .ok cs := by
  induction cs generalizing index with
  | nil => rfl
  | cons c cs ih =>
    obtain ⟨lead, tail, written, read⟩ := step_encodeChar c
    simp [written, decodeFrom, read, decodeFrom_skip, ih, Except.map]

/-- Bytes that decode to a text are the bytes of that text. -/
theorem encode_of_decodeFrom {index : Nat} {bytes : Bytes} {cs : List Char}
    (decoded : decodeFrom index 0 bytes = .ok cs) : bytes = encode cs := by
  -- the bytes of one character go at a time, so the induction is on the number of bytes
  induction total : bytes.length using Nat.strong_induction_on generalizing index bytes cs with
  | _ n ih =>
    cases bytes with
    | nil =>
      cases decoded
      rfl
    | cons lead rest =>
      unfold decodeFrom at decoded
      split at decoded
      · rename_i c width read
        obtain ⟨tail, after, rfl, written, rfl⟩ := encodeChar_of_step read
        rw [Nat.add_sub_cancel, decodeFrom_skip] at decoded
        cases others : decodeFrom (index + 1 + tail.length) 0 after with
        | error fault => simp [others, Except.map] at decoded
        | ok ds =>
          rw [others] at decoded
          cases decoded
          have smaller : after.length < n := by
            simp only [List.length_cons, List.length_append] at total
            omega
          rw [encode_cons, written, ← ih _ smaller others rfl, List.cons_append]
      · cases decoded
      · cases decoded

/-- Decoding succeeds on the encodings of texts and on nothing else, and gives the text back. -/
theorem decode_eq_ok_iff {bytes : Bytes} {cs : List Char} :
    decode bytes = .ok cs ↔ bytes = encode cs :=
  ⟨encode_of_decodeFrom, fun same => same ▸ decodeFrom_encode 0 cs⟩

theorem decode_encode (cs : List Char) : decode (encode cs) = .ok cs :=
  decode_eq_ok_iff.2 rfl

theorem toString_eq_ok_iff {bytes : Bytes} {s : String} :
    toString bytes = .ok s ↔ bytes = ofString s := by
  rw [ofString, ← decode_eq_ok_iff, toString]
  cases decode bytes with
  | error fault => simp [Except.map]
  | ok cs =>
    simp only [Except.map, Except.ok.injEq]
    rw [← String.toList_inj, String.toList_ofList]

theorem encode_injective : Function.Injective encode := by
  intro cs ds same
  have left := decode_encode cs
  rw [same, decode_encode] at left
  exact (Except.ok.inj left).symm

/-! ### Order -/

/-- Bytes are compared by the first one that differs. -/
theorem toUInt8_cons_lt {m n : Nat} {x y : Bytes} (small : n < 256) (le : m ≤ n)
    (next : m = n → x < y) : m.toUInt8 :: x < n.toUInt8 :: y := by
  rw [List.cons_lt_cons_iff]
  rcases Nat.lt_or_eq_of_le le with less | rfl
  · left
    rw [UInt8.lt_iff_toNat_lt, toNat_toUInt8 (less.trans small), toNat_toUInt8 small]
    exact less
  · exact .inr ⟨rfl, next rfl⟩

/-- The bytes of a smaller character come before those of a greater one, whatever follows. -/
theorem encodeChar_append_lt {c d : Char} (less : c < d) (x y : Bytes) :
    encodeChar c ++ x < encodeChar d ++ y := by
  have order : c.toNat < d.toNat := less
  have bound : d.toNat < 0x110000 := by
    have valid : d.toNat < 0xD800 ∨ 0xDFFF < d.toNat ∧ d.toNat < 0x110000 := d.valid
    omega
  unfold encodeChar
  simp only
  generalize c.toNat = m at *
  generalize d.toNat = n at *
  by_cases wider : (m < 0x80 ↔ n < 0x80) ∧ (m < 0x800 ↔ n < 0x800) ∧ (m < 0x10000 ↔ n < 0x10000)
  · -- of one width: the bits of the code points are compared from the lead byte on
    obtain ⟨one, two, three⟩ := wider
    simp only [one, two, three]
    split_ifs
    · exact toUInt8_cons_lt (by omega) order.le fun same => absurd same order.ne
    · refine toUInt8_cons_lt (by omega) (by omega) fun first => ?_
      exact toUInt8_cons_lt (by omega) (by omega) fun last => absurd last (by omega)
    · refine toUInt8_cons_lt (by omega) (by omega) fun first => ?_
      refine toUInt8_cons_lt (by omega) (by omega) fun second => ?_
      exact toUInt8_cons_lt (by omega) (by omega) fun last => absurd last (by omega)
    · refine toUInt8_cons_lt (by omega) (by omega) fun first => ?_
      refine toUInt8_cons_lt (by omega) (by omega) fun second => ?_
      refine toUInt8_cons_lt (by omega) (by omega) fun third => ?_
      exact toUInt8_cons_lt (by omega) (by omega) fun last => absurd last (by omega)
  · -- of different widths: the lead bytes differ
    split_ifs <;> exact toUInt8_cons_lt (by omega) (by omega) fun same => absurd same (by omega)

/-- The order of texts by their characters is the order of their bytes. -/
theorem encode_lt_encode {cs ds : List Char} (less : cs < ds) : encode cs < encode ds := by
  induction cs generalizing ds with
  | nil =>
    cases ds with
    | nil => exact absurd less (List.lt_irrefl [])
    | cons d ds =>
      obtain ⟨lead, tail, written, -⟩ := step_encodeChar d
      rw [encode_cons, written]
      exact List.Lex.nil
  | cons c cs ih =>
    cases ds with
    | nil => exact absurd less (List.not_lt_nil _)
    | cons d ds =>
      rcases List.cons_lt_cons_iff.1 less with first | ⟨rfl, later⟩
      · exact encodeChar_append_lt first _ _
      · exact List.append_left_lt (ih later)

end Marginalia.Utf8
