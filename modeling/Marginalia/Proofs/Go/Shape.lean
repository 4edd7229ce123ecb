/-
Module: Marginalia.Proofs.Go.Shape
Purpose: Where blanks and newlines can stand in a lexeme.
Main exports:
  Lexeme.at?_of_isBlank, Shape, Lexeme.at?_shape
-/
import Marginalia.Proofs.Go.Lookahead

namespace Marginalia.Go

namespace Lexeme

/-! ### Blanks between lexemes -/

theorem isBlank_of_isSpace {c : Char} (space : isSpace c) : Text.isBlank c := by
  simp only [isSpace, Bool.or_eq_true, beq_iff_eq] at space
  rcases space with (((rfl | rfl) | rfl) | rfl) | rfl <;> decide

/-- No character but a space is between lexemes. -/
theorem isSpace_of_at? {c : Char} {rest : List Char} (absent : at? c rest = none) : isSpace c := by
  by_contra solid
  rw [Bool.not_eq_true] at solid
  unfold at? at absent
  split at absent
  · cases absent
  · rw [solid] at absent
    simp only [Bool.false_eq_true, if_false] at absent
    split at absent
    · cases absent
    · split at absent <;> cases absent

/-- A blank that the grammar does not know is a stray character. -/
theorem at?_of_isBlank {c : Char} (blank : Text.isBlank c) (other : (c == '\n') = false)
    (solid : isSpace c = false) (rest : List Char) : at? c rest = some (.stray, 1) := by
  have symbol : isSymbol c := by
    rw [isSymbol, bne, other, solid, not_isNameStart_of_isBlank blank]
    rfl
  have plain : (c.isDigit || c == '.') = false ∧ c ≠ '/' ∧ c ≠ '"' ∧ c ≠ '\x60' ∧ c ≠ '\'' := by
    refine of_isBlank (p := fun c => (c.isDigit || c == '.') = false ∧ c ≠ '/' ∧ c ≠ '"' ∧
      c ≠ '\x60' ∧ c ≠ '\'') ?_ blank
    decide +kernel
  have markless : markAt? (c :: rest) = none := by
    have ended : Ended (c :: rest) := by
      rintro d ⟨⟩
      exact blank
    exact @markAt?_append [] _ ended
  rw [at?_symbol symbol]
  simp [numberAt, plain, special?, markOrStray, markless]

/-- A byte order mark is no lexeme. -/
theorem at?_byteOrderMark (rest : List Char) : at? (Char.ofNat 0xFEFF) rest = some (.stray, 1) := by
  rw [at?_symbol (by decide +kernel)]
  rfl

/-- A comment that starts with two slashes goes on to the end of its line. -/
theorem at?_lineComment {body rest : List Char} (clear : '\n' ∉ body)
    (stops : ∀ c ∈ rest.head?, c = '\n') :
    at? '/' ('/' :: body ++ rest) = some (.comment, body.length + 2) := by
  have whole : (body ++ rest).takeWhile (· != '\n') = body := by
    refine takeWhile_append_eq (fun c member => ?_) fun c head => ?_
    · rw [bne_iff_ne]
      rintro rfl
      exact clear member
    · rw [stops c head]
      rfl
  rw [at?_symbol (by decide +kernel)]
  simp [numberAt, special?, whole, Nat.add_comm]

/-! ### Lexemes without blanks -/

theorem not_isBlank_of_isNameStart {c : Char} (start : Text.isNameStart c) :
    Text.isBlank c = false := by
  by_contra blank
  rw [Bool.not_eq_false] at blank
  rw [not_isNameStart_of_isBlank blank] at start
  cases start

theorem not_isBlank_of_isNamePart {c : Char} (part : Text.isNamePart c) :
    Text.isBlank c = false := by
  by_contra blank
  rw [Bool.not_eq_false] at blank
  rw [not_isNamePart_of_isBlank blank] at part
  cases part

/-- A blank in a text would end a number before it. -/
theorem blankless_of_numberAt {c : Char} {inner rest : List Char}
    (long : numberAt c (inner ++ rest) = inner.length + 1) :
    ∀ d ∈ inner, Text.isBlank d = false := by
  intro d member
  by_contra blank
  rw [Bool.not_eq_false] at blank
  obtain ⟨before, after, rfl⟩ := List.append_of_mem member
  have ended : Ended (d :: (after ++ rest)) := by
    rintro e ⟨⟩
    exact blank
  unfold numberAt at long
  split at long
  · have short := numberLength_append (c :: before) ended.endsNumber
    have bound := numberLength_le (c :: before)
    simp only [List.append_assoc, List.cons_append, List.length_append, List.length_cons]
      at short bound long
    omega
  · cases long

/-- A blank in a text would end a mark before it. -/
theorem blankless_of_markAt? {c : Char} {inner rest : List Char} {m : Mark}
    (found : markAt? (c :: (inner ++ rest)) = some (m, inner.length + 1)) :
    ∀ d ∈ inner, Text.isBlank d = false := by
  intro d member
  by_contra blank
  rw [Bool.not_eq_false] at blank
  obtain ⟨before, after, rfl⟩ := List.append_of_mem member
  have ended : Ended (d :: (after ++ rest)) := by
    rintro e ⟨⟩
    exact blank
  have short := @markAt?_append (c :: before) _ ended
  simp only [List.append_assoc, List.cons_append, List.length_append, List.length_cons]
    at short found
  have bound := markAt?_bound (short.symm.trans found)
  simp only [List.length_cons] at bound
  omega

end Lexeme

open Lexeme

/-! ### The shapes of lexemes -/

/-- What the text of a lexeme looks like, with `rest` behind it: a newline, a comment up to the end
of its line, or a text with no blank at either end. -/
inductive Shape (rest : List Char) : Token → List Char → Prop
  | newline : Shape rest .newline ['\n']
  | line {body : List Char} (within : '\n' ∉ body) (stops : ∀ c ∈ rest.head?, c = '\n') :
    Shape rest .comment ('/' :: '/' :: body)
  | closed {token : Token} {text : List Char} (nonempty : text ≠ [])
    (begins : ∀ c ∈ text.head?, Text.isBlank c = false)
    (ends : ∀ c ∈ text.getLast?, Text.isBlank c = false)
    (lines : '\n' ∈ text → token = .comment ∨ token = .raw ∨ token = .quoted ∨
      token = .rune ∧ text = ['\'', '\n', '\''])
    (block : token = .comment → text.tail.head? = some '*') (plain : token ≠ .newline) :
    Shape rest token text

theorem isBlank_newline : Text.isBlank '\n' := by decide

namespace Lexeme

/-- A text that is cut behind a character ends with it. -/
theorem exists_of_getLast? {cs rest : List Char} {c : Char}
    (last : ((cs ++ rest).take cs.length).getLast? = some c) : ∃ middle, cs = middle ++ [c] := by
  rw [List.take_left] at last
  exact ⟨cs.dropLast, (List.dropLast_append_getLast? c last).symm⟩

/-- A text between two characters that are no blanks is closed. -/
theorem shape_between {token : Token} {first last : Char} {m rest : List Char}
    (begins : Text.isBlank first = false) (ends : Text.isBlank last = false)
    (lines : '\n' ∈ m → token = .comment ∨ token = .raw ∨ token = .quoted ∨
      token = .rune ∧ m = ['\n'] ∧ first = '\'' ∧ last = '\'')
    (block : token = .comment → (m ++ [last]).head? = some '*') (plain : token ≠ .newline) :
    Shape rest token (first :: (m ++ [last])) := by
  refine .closed (by simp) (by simpa using begins) (by simp [List.getLast?_cons, ends]) ?_ block
    plain
  intro member
  have inner : '\n' ∈ m := by
    simp only [List.mem_cons, List.mem_append, List.not_mem_nil, or_false] at member
    rcases member with rfl | inner | rfl
    · rw [isBlank_newline] at begins
      cases begins
    · exact inner
    · rw [isBlank_newline] at ends
      cases ends
  rcases lines inner with comment | raw | quoted | ⟨rune, rfl, rfl, rfl⟩
  · exact .inl comment
  · exact .inr (.inl raw)
  · exact .inr (.inr (.inl quoted))
  · exact .inr (.inr (.inr ⟨rune, rfl⟩))

theorem special?_shape {c : Char} {inner rest : List Char} {token : Token}
    (found : special? c (inner ++ rest) = some (token, inner.length + 1)) :
    Shape rest token (c :: inner) := by
  generalize whole : inner ++ rest = text at found
  unfold special? at found
  split at found
  · -- a line comment
    rename_i tail
    rw [Option.some.injEq, Prod.mk.injEq] at found
    obtain ⟨rfl, long⟩ := found
    rcases inner with _ | ⟨i, body⟩
    · simp at long
      omega
    · simp only [List.cons_append, List.cons.injEq] at whole
      obtain ⟨rfl, rfl⟩ := whole
      have exact_ : ((body ++ rest).takeWhile (· != '\n')).length = body.length := by
        simp only [List.length_cons] at long
        omega
      obtain ⟨all, stops⟩ := takeWhile_append_eq_iff.1 exact_
      refine .line (fun member => ?_) fun c head => ?_
      · have wrong := all '\n' member
        cases wrong
      · simpa using stops c head
  · -- a block comment
    obtain ⟨n, closed, same⟩ := Option.map_eq_some_iff.1 found
    simp only [Prod.mk.injEq] at same
    obtain ⟨rfl, long⟩ := same
    rcases inner with _ | ⟨i, inner⟩
    · simp at long
    · simp only [List.cons_append, List.cons.injEq] at whole
      obtain ⟨rfl, rfl⟩ := whole
      obtain rfl : n = inner.length := by
        simp only [List.length_cons] at long
        omega
      obtain ⟨middle, rfl⟩ := exists_of_getLast? (getLast?_of_blockTail closed)
      exact shape_between (m := '*' :: middle) (by decide) (by decide) (fun _ => .inl rfl)
        (fun _ => rfl) (by decide)
  · obtain ⟨n, closed, same⟩ := Option.map_eq_some_iff.1 found
    simp only [Prod.mk.injEq, Nat.add_right_cancel_iff] at same
    obtain ⟨rfl, rfl⟩ := same
    subst whole
    obtain ⟨middle, rfl⟩ := exists_of_getLast? (getLast?_of_quotedTail closed)
    exact shape_between (by decide) (by decide) (fun _ => .inr (.inr (.inl rfl)))
      (fun wrong => by cases wrong) (by decide)
  · obtain ⟨n, closed, same⟩ := Option.map_eq_some_iff.1 found
    simp only [Prod.mk.injEq, Nat.add_right_cancel_iff] at same
    obtain ⟨rfl, rfl⟩ := same
    subst whole
    obtain ⟨middle, rfl⟩ := exists_of_getLast? (getLast?_of_closedBy closed)
    exact shape_between (by decide) (by decide) (fun _ => .inr (.inl rfl))
      (fun wrong => by cases wrong) (by decide)
  · obtain ⟨n, closed, same⟩ := Option.map_eq_some_iff.1 found
    simp only [Prod.mk.injEq, Nat.add_right_cancel_iff] at same
    obtain ⟨rfl, rfl⟩ := same
    subst whole
    obtain ⟨middle, rfl⟩ := exists_of_getLast? (getLast?_of_runeTail closed)
    refine shape_between (by decide) (by decide) (fun member => ?_) (fun wrong => by cases wrong)
      (by decide)
    by_cases alone : middle = ['\n']
    · exact .inr (.inr (.inr ⟨rfl, alone, rfl, rfl⟩))
    · -- the body has as many characters as there are before the last quote
      unfold runeTail at closed
      split at closed
      · rename_i m body
        split at closed
        · rw [Option.some.injEq, List.length_append, List.length_singleton,
            Nat.add_right_cancel_iff] at closed
          subst closed
          by_cases one : middle.length = 1
          · obtain ⟨d, rfl⟩ := List.length_eq_one_iff.1 one
            simp only [List.mem_singleton] at member
            rw [member] at alone
            exact absurd rfl alone
          · have clear := newline_not_mem_of_runeBody body one
            rw [List.append_assoc, List.take_left] at clear
            exact absurd member clear
        · cases closed
      · cases closed
  · cases found

/-- Every lexeme that is not a stray character has one of the shapes. -/
theorem at?_shape {c : Char} {inner rest : List Char} {token : Token}
    (found : at? c (inner ++ rest) = some (token, inner.length + 1)) (real : token ≠ .stray) :
    Shape rest token (c :: inner) := by
  have compact (blankless : ∀ d ∈ c :: inner, Text.isBlank d = false)
      (plain : token ≠ .newline ∧ token ≠ .comment) : Shape rest token (c :: inner) := by
    refine .closed (by simp) (by simpa using blankless c List.mem_cons_self)
      (fun d last => blankless d (List.mem_of_getLast? last)) (fun member => ?_)
      (fun comment => absurd comment plain.2) plain.1
    have wrong := blankless '\n' member
    rw [isBlank_newline] at wrong
    cases wrong
  have solid (symbol : isSymbol c) : Text.isBlank c = false := by
    by_contra blank
    simp only [isSymbol, Bool.and_eq_true, Bool.not_eq_true', bne_iff_ne] at symbol
    rw [at?_of_isBlank (by simpa using blank) (by simpa using symbol.1.1) symbol.1.2,
      Option.some.injEq, Prod.mk.injEq] at found
    exact real found.1.symm
  cases found_of_at? found with
  | newline here kind size =>
    obtain rfl : inner = [] := List.length_eq_zero_iff.1 (Nat.succ.inj size)
    subst here kind
    exact .newline
  | name start kind size =>
    obtain ⟨all, -⟩ := takeWhile_append_eq_iff.1 (Nat.succ.inj size).symm
    refine compact (List.forall_mem_cons.2 ⟨?_, fun d member => ?_⟩) (by simp [kind])
    · exact not_isBlank_of_isNameStart start
    · exact not_isBlank_of_isNamePart (all d member)
  | number symbol _ kind size =>
    refine compact (List.forall_mem_cons.2 ⟨solid symbol, ?_⟩) (by simp [kind])
    exact blankless_of_numberAt size.symm
  | special found => exact special?_shape found
  | mark symbol _ _ marked kind =>
    refine compact (List.forall_mem_cons.2 ⟨solid symbol, ?_⟩) (by simp [kind])
    exact blankless_of_markAt? marked
  | stray kind => exact absurd kind real

end Lexeme
end Marginalia.Go
