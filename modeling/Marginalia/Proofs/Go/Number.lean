/-
Module: Marginalia.Proofs.Go.Number
Purpose: How far a number at the start of a text reaches, and what ends it for sure.
Main exports:
  Lexeme.numberLength_le, Lexeme.EndsNumber, Lexeme.numberLength_append
-/
import Marginalia.Go.Lexeme
import Mathlib.Tactic

namespace Marginalia.Go.Lexeme

/-! ### Numbers lie within the text -/

theorem digitRun_le (digit : Char → Bool) (cs : List Char) : digitRun digit cs ≤ cs.length := by
  fun_induction digitRun digit cs with
  | case1 c d rest isDigit isDigit' ih =>
    simp only [List.length_cons] at ih ⊢
    omega
  | case2 => simp
  | case3 => simp
  | case4 c rest _ isDigit ih =>
    simp only [List.length_cons]
    omega
  | case5 => simp
  | case6 => simp

theorem markedRun_le (digit : Char → Bool) (cs : List Char) : markedRun digit cs ≤ cs.length := by
  unfold markedRun
  split
  · rename_i rest
    have bound := digitRun_le digit rest
    split
    · simp
    · rename_i n run
      simp only [List.length_cons]
      omega
  · exact digitRun_le digit cs

theorem exponentLength_le (lower upper : Char) (cs : List Char) :
    exponentLength lower upper cs ≤ cs.length := by
  unfold exponentLength
  split
  · rename_i e rest
    split
    · split
      · rename_i sign digits
        have signed := digitRun_le Char.isDigit digits
        have unsigned := digitRun_le Char.isDigit (sign :: digits)
        simp only [List.length_cons] at unsigned ⊢
        split <;> split <;> omega
      · simp
    · simp
  · simp

theorem plus_le {k n bound : Nat} (within : n ≠ 0 → k + n ≤ bound) : plus k n ≤ bound := by
  unfold plus
  split
  · omega
  · rename_i positive
    exact within positive

theorem integerLengths_le {cs : List Char} {n : Nat} (member : n ∈ integerLengths cs) :
    n ≤ cs.length := by
  unfold integerLengths at member
  split at member
  · rename_i rest
    simp only [List.mem_cons, List.not_mem_nil, or_false] at member
    rcases member with rfl | rfl
    · simp
    · split
      · rename_i c digits
        have binary := markedRun_le isBinaryDigit digits
        have octal := markedRun_le isOctalDigit digits
        have hex := markedRun_le isHexDigit digits
        have old := markedRun_le isOctalDigit (c :: digits)
        simp only [List.length_cons] at old ⊢
        split
        · exact plus_le fun _ => by omega
        · split
          · exact plus_le fun _ => by omega
          · split
            · exact plus_le fun _ => by omega
            · exact plus_le fun _ => by omega
      · simp
  · rename_i c rest _
    split at member
    · rw [List.mem_singleton] at member
      exact member ▸ digitRun_le _ _
    · cases member
  · cases member

/-- A fraction with an exponent behind it lies within the text. -/
theorem fraction_le (digit : Char → Bool) (lower upper : Char) (cs : List Char) :
    digitRun digit cs + exponentLength lower upper (cs.drop (digitRun digit cs)) ≤ cs.length := by
  have fraction := digitRun_le digit cs
  have exponent := exponentLength_le lower upper (cs.drop (digitRun digit cs))
  rw [List.length_drop] at exponent
  omega

theorem decimalFloatLengths_le {cs : List Char} {n : Nat} (member : n ∈ decimalFloatLengths cs) :
    n ≤ cs.length := by
  unfold decimalFloatLengths at member
  have bound := digitRun_le Char.isDigit cs
  generalize digitRun Char.isDigit cs = k at member bound
  have dropped : (cs.drop k).length = cs.length - k := List.length_drop
  simp only at member
  split at member
  · rename_i rest tail
    have fraction := fraction_le Char.isDigit 'e' 'E' rest
    rw [tail, List.length_cons] at dropped
    split at member
    · cases member
    · rw [List.mem_singleton] at member
      omega
  · cases member
  · rename_i rest _ tail
    have fraction := fraction_le Char.isDigit 'e' 'E' rest
    rw [tail, List.length_cons] at dropped
    rw [List.mem_singleton] at member
    omega
  · rename_i k _ _ _ _ _
    have exponent := exponentLength_le 'e' 'E' (cs.drop k)
    rw [List.mem_singleton] at member
    rw [member]
    exact plus_le fun _ => by omega

theorem hexFloatLengths_le {cs : List Char} {n : Nat} (member : n ∈ hexFloatLengths cs) :
    n ≤ cs.length := by
  unfold hexFloatLengths at member
  split at member
  · rename_i x rest
    have bound := markedRun_le isHexDigit rest
    generalize markedRun isHexDigit rest = k at member bound
    have dropped : (rest.drop k).length = rest.length - k := List.length_drop
    simp only at member
    split at member
    · split at member
      · rename_i tail after
        have fraction := fraction_le isHexDigit 'p' 'P' tail
        rw [after, List.length_cons] at dropped
        split at member
        · cases member
        · rw [List.mem_singleton] at member
          rw [member]
          simp only [List.length_cons]
          exact plus_le fun _ => by omega
      · cases member
      · rename_i tail _ after
        have fraction := fraction_le isHexDigit 'p' 'P' tail
        rw [after, List.length_cons] at dropped
        rw [List.mem_singleton] at member
        rw [member]
        simp only [List.length_cons]
        exact plus_le fun _ => by omega
      · rename_i k _ _ _ _ _
        have exponent := exponentLength_le 'p' 'P' (rest.drop k)
        rw [List.mem_singleton] at member
        rw [member]
        simp only [List.length_cons]
        exact plus_le fun _ => by omega
    · cases member
  · cases member

/-- The lengths that a number without a suffix can have. -/
theorem baseLengths_le {cs : List Char} {n : Nat}
    (member : n ∈ integerLengths cs ++ decimalFloatLengths cs ++ hexFloatLengths cs) :
    n ≤ cs.length := by
  rcases List.mem_append.1 member with member | hex
  · rcases List.mem_append.1 member with integer | decimal
    · exact integerLengths_le integer
    · exact decimalFloatLengths_le decimal
  · exact hexFloatLengths_le hex

theorem foldl_max_le {ns : List Nat} {bound start : Nat} (first : start ≤ bound)
    (all : ∀ n ∈ ns, n ≤ bound) : ns.foldl max start ≤ bound := by
  induction ns generalizing start with
  | nil => exact first
  | cons n ns ih =>
    have here := all n List.mem_cons_self
    exact ih (max_le first here) fun m member => all m (List.mem_cons_of_mem _ member)

theorem numberLength_le (cs : List Char) : numberLength cs ≤ cs.length := by
  unfold numberLength
  refine foldl_max_le (Nat.zero_le _) fun n member => ?_
  rcases List.mem_append.1 member with base | imaginary
  · exact baseLengths_le base
  · obtain ⟨m, -, rfl⟩ := List.mem_map.1 imaginary
    split
    · rename_i suffixed
      -- an `i` behind the digits is still within the text
      by_contra beyond
      have past : cs.length ≤ m := by omega
      rw [List.drop_eq_nil_of_le past] at suffixed
      cases suffixed.2
    · exact Nat.zero_le _

/-! ### What ends a number -/

/-- The characters that numbers are written with. -/
def isNumberChar (c : Char) : Bool :=
  isHexDigit c || c == '_' || c == '.' || c == 'i' || c == 'p' || c == 'P' || c == 'x' ||
    c == 'X' || c == 'o' || c == 'O' || c == '+' || c == '-'

/-- A text that no number goes on into: it is empty, or starts with no character of numbers. -/
def EndsNumber (cs : List Char) : Prop :=
  ∀ c ∈ cs.head?, isNumberChar c = false

theorem EndsNumber.ne {ends : List Char} (stops : EndsNumber ends) {d : Char}
    (part : isNumberChar d) : ∀ c ∈ ends.head?, c ≠ d := by
  rintro c head rfl
  rw [stops c head] at part
  cases part

/-- The classes of digits lie within the hexadecimal ones. -/
def DigitClass (digit : Char → Bool) : Prop :=
  ∀ c, digit c → isHexDigit c

theorem digitClass_isHexDigit : DigitClass isHexDigit := fun _ => id

theorem digitClass_isDigit : DigitClass Char.isDigit := by
  intro c digit
  simp [isHexDigit, digit]

theorem digitClass_isOctalDigit : DigitClass isOctalDigit := by
  intro c octal
  simp only [isOctalDigit, Bool.and_eq_true, decide_eq_true_eq] at octal
  refine digitClass_isDigit c ?_
  simp only [Char.isDigit, Bool.and_eq_true, decide_eq_true_eq]
  have seven : '7'.val ≤ '9'.val := by decide
  exact ⟨octal.1, UInt32.le_trans octal.2 seven⟩

theorem digitClass_isBinaryDigit : DigitClass isBinaryDigit := by
  intro c binary
  simp only [isBinaryDigit, Bool.or_eq_true, beq_iff_eq] at binary
  rcases binary with rfl | rfl <;> decide

theorem digitRun_of_not {digit : Char → Bool} {c : Char} (other : digit c = false)
    (rest : List Char) : digitRun digit (c :: rest) = 0 := by
  unfold digitRun
  split <;> simp_all

theorem digitRun_marked {digit : Char → Bool} {c : Char} (first : digit c) (d : Char)
    (rest : List Char) :
    digitRun digit (c :: '_' :: d :: rest) =
      if digit d then 2 + digitRun digit (d :: rest) else 1 := by
  simp [digitRun, first]

theorem digitRun_plain {digit : Char → Bool} {c : Char} (first : digit c) {rest : List Char}
    (unmarked : ∀ d tail, rest ≠ '_' :: d :: tail) :
    digitRun digit (c :: rest) = 1 + digitRun digit rest := by
  rw [digitRun.eq_def]
  split
  · rename_i same
    simp only [List.cons.injEq] at same
    exact absurd same.2 (unmarked _ _)
  · rename_i same
    simp only [List.cons.injEq] at same
    obtain ⟨rfl, rfl⟩ := same
    simp [first]
  · rename_i absurd
    cases absurd

theorem EndsNumber.not_digit {ends : List Char} (stops : EndsNumber ends) {digit : Char → Bool}
    (cls : DigitClass digit) : ∀ c ∈ ends.head?, digit c = false ∧ c ≠ '_' := by
  intro c head
  refine ⟨?_, stops.ne (by decide) c head⟩
  by_contra digit
  have hex := cls c (by simpa using digit)
  have stop := stops c head
  simp [isNumberChar, hex] at stop

theorem digitRun_append {digit : Char → Bool} (cls : DigitClass digit) (cs : List Char)
    {ends : List Char} (ends_number : EndsNumber ends) :
    digitRun digit (cs ++ ends) = digitRun digit cs := by
  have stops := ends_number.not_digit cls
  have underscore : digit '_' = false := by
    by_contra digit
    exact absurd (cls '_' (by simpa using digit)) (by decide)
  fun_induction digitRun digit cs with
  | case1 c d rest first second ih =>
    rw [List.cons_append] at ih
    simp [digitRun_marked first, second, ih]
  | case2 c d rest first second => simp [digitRun_marked first, second]
  | case3 c d rest first => simp [digitRun_of_not (Bool.eq_false_iff.2 first)]
  | case4 c rest unmarked first ih =>
    by_cases cut : rest = ['_'] ∧ ends ≠ []
    · -- the underscore is the last character, and no digit follows it
      obtain ⟨rfl, more⟩ := cut
      obtain ⟨e, ends, rfl⟩ := List.exists_cons_of_ne_nil more
      have stop := (stops e rfl).1
      simp [digitRun_marked first, stop, digitRun_of_not underscore]
    · have unmarked' : ∀ d tail, rest ++ ends ≠ '_' :: d :: tail := by
        intro d tail same
        rcases rest with _ | ⟨r, _ | ⟨r', rest⟩⟩
        · rw [List.nil_append] at same
          exact (stops '_' (by simp [same])).2 rfl
        · simp only [List.cons_append, List.nil_append, List.cons.injEq] at same
          exact cut ⟨by rw [same.1], by simp [same.2]⟩
        · simp only [List.cons_append, List.cons.injEq] at same
          exact unmarked r' rest (by rw [same.1])
      rw [List.cons_append, digitRun_plain first unmarked', ih]
  | case5 c rest unmarked first =>
    simp [digitRun_of_not (Bool.eq_false_iff.2 first)]
  | case6 =>
    rw [List.nil_append]
    rcases ends with _ | ⟨e, ends⟩
    · rfl
    · exact digitRun_of_not (stops e rfl).1 ends

theorem markedRun_append {digit : Char → Bool} (cls : DigitClass digit) (cs : List Char)
    {ends : List Char} (ends_number : EndsNumber ends) :
    markedRun digit (cs ++ ends) = markedRun digit cs := by
  rcases cs with _ | ⟨c, cs⟩
  · rcases ends with _ | ⟨e, ends⟩
    · rfl
    · have stop := ends_number.not_digit cls e rfl
      rw [List.nil_append, markedRun.eq_2 _ _ (by simp [stop.2])]
      exact digitRun_of_not stop.1 ends
  · by_cases underscore : c = '_'
    · subst underscore
      simp only [List.cons_append, markedRun, digitRun_append cls _ ends_number]
    · rw [List.cons_append, markedRun.eq_2 _ _ (by simp [underscore]),
        markedRun.eq_2 _ _ (by simp [underscore]), ← List.cons_append,
        digitRun_append cls _ ends_number]

theorem exponentLength_append {lower upper : Char} {cs ends : List Char}
    (ends_number : EndsNumber ends) (stops : ∀ c ∈ ends.head?, c ≠ lower ∧ c ≠ upper) :
    exponentLength lower upper (cs ++ ends) = exponentLength lower upper cs := by
  rcases cs with _ | ⟨c, _ | ⟨sign, digits⟩⟩
  · rcases ends with _ | ⟨e, ends⟩
    · rfl
    · simp [exponentLength, stops e rfl]
  · rcases ends with _ | ⟨e, ends⟩
    · rfl
    · have plus : e ≠ '+' := ends_number.ne (by decide) e rfl
      have minus : e ≠ '-' := ends_number.ne (by decide) e rfl
      have zero : digitRun Char.isDigit (e :: ends) = 0 :=
        digitRun_of_not (ends_number.not_digit digitClass_isDigit e rfl).1 ends
      simp [exponentLength, plus, minus, zero]
  · have signed : digitRun Char.isDigit (digits ++ ends) = digitRun Char.isDigit digits :=
      digitRun_append digitClass_isDigit digits ends_number
    have unsigned : digitRun Char.isDigit (sign :: (digits ++ ends)) =
        digitRun Char.isDigit (sign :: digits) :=
      digitRun_append digitClass_isDigit (sign :: digits) ends_number
    simp only [List.cons_append, exponentLength, signed, unsigned]

theorem integerLengths_of_ne {c : Char} (nonzero : c ≠ '0') (rest : List Char) :
    integerLengths (c :: rest) =
      if c.isDigit then [digitRun Char.isDigit (c :: rest)] else [] := by
  rw [integerLengths.eq_def]
  split
  · rename_i same
    cases same
    exact absurd rfl nonzero
  · rename_i same
    cases same
    rfl
  · rename_i absurd
    cases absurd

theorem integerLengths_append {cs ends : List Char} (ends_number : EndsNumber ends) :
    integerLengths (cs ++ ends) = integerLengths cs := by
  rcases cs with _ | ⟨c, cs⟩
  · rcases ends with _ | ⟨e, ends⟩
    · rfl
    · have stop := (ends_number.not_digit digitClass_isDigit e rfl).1
      have nonzero : e ≠ '0' := by
        rintro rfl
        cases stop
      rw [List.nil_append, integerLengths_of_ne nonzero, stop]
      rfl
  · by_cases zero : c = '0'
    · subst zero
      rcases cs with _ | ⟨d, cs⟩
      · rcases ends with _ | ⟨e, ends⟩
        · rfl
        · have octal : markedRun isOctalDigit ([] ++ e :: ends) = 0 :=
            markedRun_append digitClass_isOctalDigit [] ends_number
          rw [List.nil_append] at octal
          have other {d : Char} (part : isNumberChar d) : e ≠ d := ends_number.ne part e rfl
          have binary : e ≠ 'b' ∧ e ≠ 'B' := ⟨other (by decide), other (by decide)⟩
          have hex : e ≠ 'x' ∧ e ≠ 'X' := ⟨other (by decide), other (by decide)⟩
          have marked : e ≠ 'o' ∧ e ≠ 'O' := ⟨other (by decide), other (by decide)⟩
          simp [integerLengths, octal, plus, binary, hex, marked]
      · have octal : markedRun isOctalDigit (d :: (cs ++ ends)) =
            markedRun isOctalDigit (d :: cs) :=
          markedRun_append digitClass_isOctalDigit (d :: cs) ends_number
        simp only [List.cons_append, integerLengths, octal,
          markedRun_append digitClass_isOctalDigit _ ends_number,
          markedRun_append digitClass_isBinaryDigit _ ends_number,
          markedRun_append digitClass_isHexDigit _ ends_number]
    · have digits : digitRun Char.isDigit (c :: (cs ++ ends)) = digitRun Char.isDigit (c :: cs) :=
        digitRun_append digitClass_isDigit (c :: cs) ends_number
      rw [List.cons_append, integerLengths_of_ne zero, integerLengths_of_ne zero, digits]

theorem decimalExponent_append (cs : List Char) {ends : List Char} (ends_number : EndsNumber ends) :
    exponentLength 'e' 'E' (cs ++ ends) = exponentLength 'e' 'E' cs :=
  exponentLength_append ends_number fun c head =>
    ⟨ends_number.ne (by decide) c head, ends_number.ne (by decide) c head⟩

theorem hexExponent_append (cs : List Char) {ends : List Char} (ends_number : EndsNumber ends) :
    exponentLength 'p' 'P' (cs ++ ends) = exponentLength 'p' 'P' cs :=
  exponentLength_append ends_number fun c head =>
    ⟨ends_number.ne (by decide) c head, ends_number.ne (by decide) c head⟩

/-- What is left of a text behind a run of digits, with an end behind the text. -/
theorem drop_digitRun_append {digit : Char → Bool} (cs ends : List Char) :
    (cs ++ ends).drop (digitRun digit cs) = cs.drop (digitRun digit cs) ++ ends :=
  List.drop_append_of_le_length (digitRun_le digit cs)

theorem decimalFloatLengths_append {cs ends : List Char} (ends_number : EndsNumber ends) :
    decimalFloatLengths (cs ++ ends) = decimalFloatLengths cs := by
  unfold decimalFloatLengths
  dsimp only
  rw [digitRun_append digitClass_isDigit cs ends_number, drop_digitRun_append]
  generalize digitRun Char.isDigit cs = whole
  generalize cs.drop whole = rest
  have fraction (rest : List Char) := digitRun_append digitClass_isDigit rest ends_number
  have exponent (rest : List Char) := decimalExponent_append rest ends_number
  rcases rest with _ | ⟨c, rest⟩
  · rcases ends with _ | ⟨e, ends⟩
    · rfl
    · have dotless : e ≠ '.' := ends_number.ne (by decide) e rfl
      have unscaled : exponentLength 'e' 'E' (e :: ends) = exponentLength 'e' 'E' [] := exponent []
      cases whole <;> simp [dotless, unscaled]
  · by_cases dot : c = '.'
    · subst dot
      cases whole <;> simp [fraction, drop_digitRun_append, exponent]
    · have same : exponentLength 'e' 'E' (c :: (rest ++ ends)) =
          exponentLength 'e' 'E' (c :: rest) := exponent (c :: rest)
      cases whole <;> simp [dot, same]

theorem hexFloatLengths_append {cs ends : List Char} (ends_number : EndsNumber ends) :
    hexFloatLengths (cs ++ ends) = hexFloatLengths cs := by
  have fraction (rest : List Char) := digitRun_append digitClass_isHexDigit rest ends_number
  have exponent (rest : List Char) := hexExponent_append rest ends_number
  rcases cs with _ | ⟨c, _ | ⟨x, rest⟩⟩
  · rcases ends with _ | ⟨e, ends⟩
    · rfl
    · have nonzero : e ≠ '0' := ends_number.ne (by decide) e rfl
      simp [hexFloatLengths, nonzero]
  · rcases ends with _ | ⟨e, ends⟩
    · rfl
    · have lower : e ≠ 'x' := ends_number.ne (by decide) e rfl
      have upper : e ≠ 'X' := ends_number.ne (by decide) e rfl
      by_cases zero : c = '0'
      · subst zero
        simp [hexFloatLengths, lower, upper]
      · simp [hexFloatLengths, zero]
  · by_cases zero : c = '0'
    · subst zero
      have dropped : (rest ++ ends).drop (markedRun isHexDigit rest) =
          rest.drop (markedRun isHexDigit rest) ++ ends :=
        List.drop_append_of_le_length (markedRun_le isHexDigit rest)
      simp only [hexFloatLengths, List.cons_append,
        markedRun_append digitClass_isHexDigit rest ends_number, dropped]
      generalize markedRun isHexDigit rest = whole
      generalize rest.drop whole = tail
      split
      · rcases tail with _ | ⟨d, tail⟩
        · rcases ends with _ | ⟨e, ends⟩
          · rfl
          · have dotless : e ≠ '.' := ends_number.ne (by decide) e rfl
            have unscaled : exponentLength 'p' 'P' (e :: ends) = exponentLength 'p' 'P' [] :=
              exponent []
            cases whole <;> simp [dotless, unscaled]
        · by_cases dot : d = '.'
          · subst dot
            cases whole <;> simp [fraction, drop_digitRun_append, exponent]
          · have same : exponentLength 'p' 'P' (d :: (tail ++ ends)) =
                exponentLength 'p' 'P' (d :: tail) := exponent (d :: tail)
            cases whole <;> simp [dot, same]
      · rfl
    · simp [hexFloatLengths, zero]

/-- What no number goes on into does not change the number before it. -/
theorem numberLength_append (cs : List Char) {ends : List Char} (ends_number : EndsNumber ends) :
    numberLength (cs ++ ends) = numberLength cs := by
  unfold numberLength
  rw [integerLengths_append ends_number, decimalFloatLengths_append ends_number,
    hexFloatLengths_append ends_number, digitRun_append digitClass_isDigit cs ends_number]
  dsimp only
  congr 2
  refine List.map_congr_left fun n member => ?_
  have within : n ≤ cs.length := by
    rcases List.mem_cons.1 member with rfl | base
    · exact digitRun_le _ _
    · exact baseLengths_le base
  rw [List.drop_append_of_le_length within]
  rcases cs.drop n with _ | ⟨c, rest⟩
  · have other : ends.head? ≠ some 'i' := by
      intro head
      exact ends_number.ne (by decide) 'i' (by simp [head]) rfl
    simp [other]
  · rfl

end Marginalia.Go.Lexeme
