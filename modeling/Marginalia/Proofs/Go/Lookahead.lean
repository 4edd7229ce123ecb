/-
Module: Marginalia.Proofs.Go.Lookahead
Purpose: How far the lexeme at a character reaches, and which of what follows it can matter.
Main exports:
  Ended, Alike, Lexeme.Found, Lexeme.found_of_at?, Lexeme.at?_bound, Lexeme.at?_congr
-/
import Marginalia.Text.Chars
import Marginalia.Proofs.Go.Number
import Marginalia.Proofs.Go.Closed

namespace Marginalia.Go

/-! ### Blanks end lexemes -/

/-- A text in front of which every lexeme has ended: it is empty or starts with a blank. -/
def Ended (cs : List Char) : Prop :=
  ∀ c ∈ cs.head?, Text.isBlank c

/-- The codes of the blanks. -/
def blankCodes : List Nat :=
  [0x09, 0x0A, 0x0B, 0x0C, 0x0D, 0x20, 0x85, 0xA0, 0x1680, 0x2000, 0x2001, 0x2002, 0x2003, 0x2004,
    0x2005, 0x2006, 0x2007, 0x2008, 0x2009, 0x200A, 0x2028, 0x2029, 0x202F, 0x205F, 0x3000]

theorem toNat_mem_blankCodes {c : Char} (blank : Text.isBlank c) : c.toNat ∈ blankCodes := by
  simp only [Text.isBlank, Bool.or_eq_true, Bool.and_eq_true, decide_eq_true_eq, beq_iff_eq]
    at blank
  simp only [blankCodes, List.mem_cons, List.not_mem_nil, or_false]
  omega

/-- What is checked of every blank holds of a character that is one. -/
theorem of_isBlank {p : Char → Prop} (all : ∀ code ∈ blankCodes, p (Char.ofNat code)) {c : Char}
    (blank : Text.isBlank c) : p c := by
  have here := all c.toNat (toNat_mem_blankCodes blank)
  rwa [Char.ofNat_toNat] at here

theorem not_isNamePart_of_isBlank {c : Char} (blank : Text.isBlank c) :
    Text.isNamePart c = false := by
  refine of_isBlank (p := fun c => Text.isNamePart c = false) ?_ blank
  decide +kernel

theorem not_isNameStart_of_isBlank {c : Char} (blank : Text.isBlank c) :
    Text.isNameStart c = false := by
  refine of_isBlank (p := fun c => Text.isNameStart c = false) ?_ blank
  decide +kernel

theorem Ended.endsNumber {cs : List Char} (ended : Ended cs) : Lexeme.EndsNumber cs := by
  intro c head
  refine of_isBlank (p := fun c => Lexeme.isNumberChar c = false) ?_ (ended c head)
  decide +kernel

/-- Two texts that agree up to where every lexeme before has ended. -/
def Alike (cs ds : List Char) : Prop :=
  ∃ same first second, cs = same ++ first ∧ ds = same ++ second ∧ Ended first ∧ Ended second

namespace Lexeme

/-! ### Marks -/

theorem spelling_blankless {spelled : List Char × Mark} (member : spelled ∈ Mark.spellings) :
    ∀ c ∈ spelled.1, Text.isBlank c = false := by
  have all : Mark.spellings.all fun spelled => spelled.1.all fun c => !Text.isBlank c := by
    decide +kernel
  simpa using List.all_eq_true.1 all spelled member

theorem isPrefixOf_append_ended {spelled cs ends : List Char}
    (blankless : ∀ c ∈ spelled, Text.isBlank c = false) (ended : Ended ends) :
    spelled.isPrefixOf (cs ++ ends) = spelled.isPrefixOf cs := by
  induction spelled generalizing cs with
  | nil => simp
  | cons s spelled ih =>
    rcases cs with _ | ⟨c, cs⟩
    · rcases ends with _ | ⟨e, ends⟩
      · rfl
      · have differ : s ≠ e := by
          rintro rfl
          have blank := ended s rfl
          rw [blankless s List.mem_cons_self] at blank
          cases blank
        rw [List.nil_append, List.isPrefixOf_cons_cons, beq_eq_false_iff_ne.2 differ]
        rfl
    · rw [List.cons_append, List.isPrefixOf_cons_cons, List.isPrefixOf_cons_cons,
        ih fun d member => blankless d (List.mem_cons_of_mem _ member)]

theorem markAt?_append {cs ends : List Char} (ended : Ended ends) :
    markAt? (cs ++ ends) = markAt? cs := by
  unfold markAt?
  congr 1
  refine List.find?_congr fun spelled member => ?_
  exact isPrefixOf_append_ended (spelling_blankless member) ended

theorem markAt?_bound {cs : List Char} {m : Mark} {n : Nat} (found : markAt? cs = some (m, n)) :
    1 ≤ n ∧ n ≤ cs.length := by
  obtain ⟨⟨spelled, m'⟩, first, same⟩ := Option.map_eq_some_iff.1 found
  cases same
  have member := List.mem_of_find?_eq_some first
  have lead : spelled <+: cs := by simpa using List.find?_some first
  have nonempty : Mark.spellings.all fun spelled => 1 ≤ spelled.1.length := by decide +kernel
  exact ⟨by simpa using List.all_eq_true.1 nonempty _ member, lead.length_le⟩

/-! ### The lexeme at a character -/

theorem at?_newline (rest : List Char) : at? '\n' rest = some (.newline, 1) := rfl

theorem at?_space {c : Char} (space : isSpace c) (rest : List Char) : at? c rest = none := by
  have other : (c == '\n') = false := by
    rw [beq_eq_false_iff_ne]
    rintro rfl
    cases space
  simp [at?, other, space]

theorem at?_nameStart {c : Char} (start : Text.isNameStart c) (rest : List Char) :
    at? c rest = some (.word (Keyword.ofWord? (c :: rest.takeWhile Text.isNamePart)),
      (rest.takeWhile Text.isNamePart).length + 1) := by
  have newline : c ≠ '\n' := by
    rintro rfl
    cases start
  have solid : isSpace c = false := by
    by_contra blank
    rw [Bool.not_eq_false] at blank
    simp only [isSpace, Bool.or_eq_true, beq_iff_eq] at blank
    rcases blank with (((rfl | rfl) | rfl) | rfl) | rfl <;> cases start
  simp [at?, newline, solid, start]

/-- The characters that neither stand between lexemes nor start a name. -/
def isSymbol (c : Char) : Bool := c != '\n' && !isSpace c && !Text.isNameStart c

theorem at?_symbol {c : Char} (symbol : isSymbol c) (rest : List Char) :
    at? c rest =
      if numberAt c rest ≠ 0 then some (.number, numberAt c rest)
      else some ((special? c rest).getD (markOrStray (c :: rest))) := by
  simp only [isSymbol, Bool.and_eq_true, Bool.not_eq_true', bne_iff_ne] at symbol
  simp [at?, symbol]

/-- What starts a comment or a literal in quotes is nothing else. -/
theorem at?_of_special? {c : Char} {rest : List Char} {lexeme : Token × Nat}
    (special : special? c rest = some lexeme) : at? c rest = some lexeme := by
  have plain : isSymbol c ∧ (c.isDigit || c == '.') = false := by
    unfold special? at special
    split at special
    all_goals first
      | exact ⟨by decide +kernel, by decide⟩
      | cases special
  rw [at?_symbol plain.1, special]
  simp [numberAt, plain.2]

/-- The rules for the lexeme at a character, in the order in which they are tried. -/
inductive Found (c : Char) (rest : List Char) (token : Token) (n : Nat) : Prop
  | newline (here : c = '\n') (kind : token = .newline) (size : n = 1)
  | name (start : Text.isNameStart c)
    (kind : token = .word (Keyword.ofWord? (c :: rest.takeWhile Text.isNamePart)))
    (size : n = (rest.takeWhile Text.isNamePart).length + 1)
  | number (symbol : isSymbol c) (numeric : numberAt c rest ≠ 0) (kind : token = .number)
    (size : n = numberAt c rest)
  | special (found : special? c rest = some (token, n))
  | mark {m : Mark} (symbol : isSymbol c) (numberless : numberAt c rest = 0)
    (plain : special? c rest = none) (found : markAt? (c :: rest) = some (m, n))
    (kind : token = .mark m)
  | stray (kind : token = .stray) (size : n = 1)

/-- Every lexeme is there by one of the rules. -/
theorem found_of_at? {c : Char} {rest : List Char} {token : Token} {n : Nat}
    (found : at? c rest = some (token, n)) : Found c rest token n := by
  by_cases newline : c = '\n'
  · subst newline
    cases found
    exact .newline rfl rfl rfl
  by_cases space : isSpace c
  · rw [at?_space space] at found
    cases found
  by_cases start : Text.isNameStart c
  · rw [at?_nameStart start] at found
    cases found
    exact .name start rfl rfl
  have symbol : isSymbol c := by simp [isSymbol, newline, space, start]
  rw [at?_symbol symbol] at found
  split at found
  · rename_i numeric
    cases found
    exact .number symbol numeric rfl rfl
  · rename_i zero
    cases special : special? c rest with
    | some lexeme =>
      rw [special, Option.getD_some, Option.some.injEq] at found
      exact .special (special.trans (congrArg some found))
    | none =>
      rw [special, Option.getD_none, Option.some.injEq, markOrStray] at found
      split at found
      · rename_i marked
        cases found
        exact .mark symbol (not_not.1 zero) special marked rfl
      · cases found
        exact .stray rfl rfl

theorem numberAt_le (c : Char) (rest : List Char) : numberAt c rest ≤ rest.length + 1 := by
  unfold numberAt
  split
  · exact numberLength_le (c :: rest)
  · exact Nat.zero_le _

theorem special?_bound {c : Char} {rest : List Char} {token : Token} {n : Nat}
    (found : special? c rest = some (token, n)) : 1 ≤ n ∧ n ≤ rest.length + 1 := by
  unfold special? at found
  split at found
  · rename_i tail
    cases found
    have := (List.takeWhile_sublist (l := tail) (· != '\n')).length_le
    simp only [List.length_cons]
    omega
  · rename_i tail
    obtain ⟨k, closed, same⟩ := Option.map_eq_some_iff.1 found
    cases same
    have := blockTail_le closed
    simp only [List.length_cons]
    omega
  · obtain ⟨k, closed, same⟩ := Option.map_eq_some_iff.1 found
    cases same
    have := (lt_of_quotedTail closed).2
    omega
  · obtain ⟨k, closed, same⟩ := Option.map_eq_some_iff.1 found
    cases same
    have := closedBy_le closed
    omega
  · obtain ⟨k, closed, same⟩ := Option.map_eq_some_iff.1 found
    cases same
    have := runeTail_le closed
    omega
  · cases found

/-- A lexeme has at least one character and lies within the text. -/
theorem at?_bound {c : Char} {rest : List Char} {token : Token} {n : Nat}
    (found : at? c rest = some (token, n)) : 1 ≤ n ∧ n ≤ rest.length + 1 := by
  cases found_of_at? found with
  | newline _ _ size => simp [size]
  | name _ _ size =>
    have := (List.takeWhile_sublist Text.isNamePart (l := rest)).length_le
    omega
  | number _ numeric _ size =>
    have := numberAt_le c rest
    omega
  | special found => exact special?_bound found
  | mark _ _ _ found => exact markAt?_bound found
  | stray _ size => simp [size]

/-! ### What follows a lexeme -/

theorem takeWhile_append_eq_iff {p : Char → Bool} {cs rest : List Char} :
    ((cs ++ rest).takeWhile p).length = cs.length ↔
      (∀ c ∈ cs, p c) ∧ ∀ c ∈ rest.head?, p c = false := by
  induction cs with
  | nil =>
    rcases rest with _ | ⟨c, rest⟩
    · simp
    · by_cases part : p c
      · simp [part]
      · simp [part]
  | cons c cs ih =>
    by_cases part : p c
    · simp [part, ih]
    · simp [part]

theorem takeWhile_append_eq {p : Char → Bool} {cs rest : List Char} (all : ∀ c ∈ cs, p c)
    (stops : ∀ c ∈ rest.head?, p c = false) : (cs ++ rest).takeWhile p = cs := by
  rw [List.takeWhile_append_of_pos all]
  rcases rest with _ | ⟨c, rest⟩
  · simp
  · simp [stops c rfl]

end Lexeme

open Lexeme

/-- Where no name goes on, none does in a text that is alike. -/
theorem Alike.not_isNamePart {cs ds : List Char} (alike : Alike cs ds)
    (stops : ∀ c ∈ cs.head?, Text.isNamePart c = false) :
    ∀ c ∈ ds.head?, Text.isNamePart c = false := by
  obtain ⟨same, first, second, rfl, rfl, -, ended⟩ := alike
  rcases same with _ | ⟨s, same⟩
  · intro c head
    exact not_isNamePart_of_isBlank (ended c head)
  · exact stops

theorem Alike.numberAt_eq {cs ds : List Char} (alike : Alike cs ds) (c : Char) (inner : List Char) :
    numberAt c (inner ++ cs) = numberAt c (inner ++ ds) := by
  obtain ⟨same, first, second, rfl, rfl, ended, ended'⟩ := alike
  unfold numberAt
  split
  · have one := numberLength_append (c :: inner ++ same) ended.endsNumber
    have other := numberLength_append (c :: inner ++ same) ended'.endsNumber
    simp only [List.cons_append, List.append_assoc] at one other ⊢
    rw [one, other]
  · rfl

theorem Alike.markAt?_eq {cs ds : List Char} (alike : Alike cs ds) (inner : List Char) :
    markAt? (inner ++ cs) = markAt? (inner ++ ds) := by
  obtain ⟨same, first, second, rfl, rfl, ended, ended'⟩ := alike
  rw [← List.append_assoc, ← List.append_assoc, markAt?_append ended, markAt?_append ended']

theorem Ended.head?_ne {cs : List Char} (ended : Ended cs) {c : Char}
    (solid : Text.isBlank c = false) : cs.head? ≠ some c := by
  intro head
  have blank := ended c head
  rw [solid] at blank
  cases blank

/-- The first character that follows is the same, or a blank in both texts. -/
theorem Alike.head?_ne {cs ds : List Char} (alike : Alike cs ds) {c : Char}
    (solid : Text.isBlank c = false) (other : cs.head? ≠ some c) : ds.head? ≠ some c := by
  obtain ⟨same, first, second, rfl, rfl, -, ended⟩ := alike
  rcases same with _ | ⟨s, same⟩
  · exact ended.head?_ne solid
  · exact other

namespace Lexeme

/-- A comment between `/*` and `*/`, or a literal in quotes, does not depend on what follows it. -/
theorem special?_congr {c : Char} {inner cs : List Char} {token : Token} (ds : List Char)
    (found : special? c (inner ++ cs) = some (token, inner.length + 1))
    (block : token = .comment → inner.head? = some '*') :
    special? c (inner ++ ds) = some (token, inner.length + 1) := by
  generalize whole : inner ++ cs = rest at found
  unfold special? at found
  split at found
  · -- a line comment does not start with a star
    rw [Option.some.injEq, Prod.mk.injEq] at found
    obtain ⟨tail, rfl⟩ := List.head?_eq_some_iff.1 (block found.1.symm)
    cases whole
  · rename_i tail
    obtain ⟨n, closed, same⟩ := Option.map_eq_some_iff.1 found
    simp only [Prod.mk.injEq] at same
    obtain ⟨rfl, long⟩ := same
    obtain ⟨inner, rfl⟩ := List.head?_eq_some_iff.1 (block rfl)
    simp only [List.cons_append, List.cons.injEq, true_and] at whole
    simp only [List.length_cons] at long
    subst whole
    have kept : blockTail (inner ++ ds) = some n := by
      rw [blockTail_append_iff (by omega)] at closed ⊢
      exact closed
    simp [special?, kept, ← long]
  · obtain ⟨n, closed, same⟩ := Option.map_eq_some_iff.1 found
    simp only [Prod.mk.injEq, Nat.add_right_cancel_iff] at same
    obtain ⟨rfl, rfl⟩ := same
    have kept : quotedTail 0 (inner ++ ds) = some inner.length := by
      rw [← whole, quotedTail_append_iff le_rfl] at closed
      rw [quotedTail_append_iff le_rfl]
      exact closed
    simp [special?, kept]
  · obtain ⟨n, closed, same⟩ := Option.map_eq_some_iff.1 found
    simp only [Prod.mk.injEq, Nat.add_right_cancel_iff] at same
    obtain ⟨rfl, rfl⟩ := same
    have kept : closedBy '\x60' (inner ++ ds) = some inner.length := by
      rw [← whole, closedBy_append_iff le_rfl] at closed
      rw [closedBy_append_iff le_rfl]
      exact closed
    simp [special?, kept]
  · obtain ⟨n, closed, same⟩ := Option.map_eq_some_iff.1 found
    simp only [Prod.mk.injEq, Nat.add_right_cancel_iff] at same
    obtain ⟨rfl, rfl⟩ := same
    have kept : runeTail (inner ++ ds) = some inner.length := by
      rw [← whole, runeTail_append_iff le_rfl] at closed
      rw [runeTail_append_iff le_rfl]
      exact closed
    simp [special?, kept]
  · cases found

theorem special?_slash {rest : List Char} (plain : rest.head? ≠ some '/')
    (unclosed : ∀ tail, rest = '*' :: tail → blockTail tail = none) : special? '/' rest = none := by
  rcases rest with _ | ⟨c, rest⟩
  · rfl
  · by_cases slash : c = '/'
    · exact absurd (by rw [List.head?_cons, slash]) plain
    · by_cases star : c = '*'
      · subst star
        simp [special?, unclosed rest rfl]
      · simp [special?, slash, star]

theorem markAt?_quote {c : Char} (quote : c = '"' ∨ c = '\x60' ∨ c = '\'') (rest : List Char) :
    markAt? (c :: rest) = none := by
  rcases quote with rfl | rfl | rfl <;> rfl

/-- Where a mark is, nothing that follows makes a comment or a literal in quotes of it, other than
a `*` after a slash with a `*/` later on. -/
theorem special?_none_congr {c : Char} {inner cs ds : List Char} {m : Mark} (alike : Alike cs ds)
    (absent : special? c (inner ++ cs) = none)
    (marked : markAt? (c :: (inner ++ cs)) = some (m, inner.length + 1))
    (unclosed : ∀ tail, cs = '*' :: tail → blockTail tail = none →
      ∃ tail', ds = '*' :: tail' ∧ blockTail tail' = none) :
    special? c (inner ++ ds) = none := by
  by_cases slash : c = '/'
  · subst slash
    rcases inner with _ | ⟨i, inner⟩
    · rw [List.nil_append] at absent ⊢
      have plain : cs.head? ≠ some '/' := by
        intro head
        obtain ⟨tail, rfl⟩ := List.head?_eq_some_iff.1 head
        cases absent
      refine special?_slash (alike.head?_ne (by decide) plain) fun tail same => ?_
      have star : cs.head? = some '*' := by
        by_contra other
        exact alike.head?_ne (by decide) other (by simp [same])
      obtain ⟨tail', rfl⟩ := List.head?_eq_some_iff.1 star
      obtain ⟨tail'', same', open_⟩ := unclosed tail' rfl (by simpa [special?] using absent)
      rw [same, List.cons.injEq] at same'
      rw [same'.2, open_]
    · rw [List.cons_append] at absent marked ⊢
      refine special?_slash ?_ fun tail same => ?_
      · intro head
        cases head
        cases absent
      · -- a slash alone is a mark of one character
        cases same
        cases marked
  · by_cases quote : c = '"' ∨ c = '\x60' ∨ c = '\''
    · rw [markAt?_quote quote] at marked
      cases marked
    · simp only [not_or] at quote
      simp [special?, slash, quote]

/-- The lexeme at a character is the same in a text that is alike behind it. Two things need care:
a line comment goes on to the end of its line, and a slash before a star is a mark only as long as
no `*/` follows. -/
theorem at?_congr {c : Char} {inner cs ds : List Char} {token : Token}
    (found : at? c (inner ++ cs) = some (token, inner.length + 1)) (alike : Alike cs ds)
    (real : token ≠ .stray) (block : token = .comment → inner.head? = some '*')
    (unclosed : ∀ tail, cs = '*' :: tail → blockTail tail = none →
      ∃ tail', ds = '*' :: tail' ∧ blockTail tail' = none) :
    at? c (inner ++ ds) = some (token, inner.length + 1) := by
  cases found_of_at? found with
  | newline here kind size =>
    obtain rfl : inner = [] := List.length_eq_zero_iff.1 (Nat.succ.inj size)
    subst here kind
    rfl
  | name start kind size =>
    obtain ⟨all, stops⟩ := takeWhile_append_eq_iff.1 (Nat.succ.inj size).symm
    rw [at?_nameStart start, takeWhile_append_eq all (alike.not_isNamePart stops), kind,
      takeWhile_append_eq all stops]
  | number symbol numeric kind size =>
    have same := alike.numberAt_eq c inner
    rw [at?_symbol symbol, ← same, if_pos numeric, kind, size]
  | special found => exact at?_of_special? (special?_congr ds found block)
  | mark symbol numberless plain marked kind =>
    have same := alike.markAt?_eq (c :: inner)
    rw [List.cons_append, List.cons_append, marked] at same
    rw [at?_symbol symbol, ← alike.numberAt_eq c inner, if_neg (not_not.2 numberless),
      special?_none_congr alike plain marked unclosed, Option.getD_none, markOrStray, ← same, kind]
  | stray kind => exact absurd kind real

end Lexeme
end Marginalia.Go
