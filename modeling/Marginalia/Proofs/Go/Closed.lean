/-
Module: Marginalia.Proofs.Go.Closed
Purpose: Lexemes that end in a mark of their own do not depend on what follows them.
Main exports:
  Lexeme.quotedTail_append_iff, Lexeme.closedBy_append_iff, Lexeme.blockTail_append_iff,
  Lexeme.runeTail_append_iff
-/
import Marginalia.Go.Lexeme
import Mathlib.Tactic

namespace Marginalia.Go.Lexeme

/-! ### Text up to a closing character -/

theorem closedBy_append_iff {close : Char} {cs rest : List Char} {n : Nat}
    (within : n ≤ cs.length) :
    closedBy close (cs ++ rest) = some n ↔ closedBy close cs = some n := by
  induction cs generalizing n with
  | nil =>
    obtain rfl : n = 0 := Nat.le_zero.1 within
    rcases rest with _ | ⟨c, rest⟩
    · rfl
    · simp only [List.nil_append, closedBy]
      split <;> simp
  | cons c cs ih =>
    simp only [List.cons_append, closedBy]
    split
    · rfl
    · rcases n with _ | n
      · simp
      · simp [ih (by simpa using within)]

theorem closedBy_le {close : Char} {cs : List Char} {n : Nat}
    (closed : closedBy close cs = some n) : n ≤ cs.length := by
  induction cs generalizing n with
  | nil => cases closed
  | cons c cs ih =>
    simp only [closedBy] at closed
    split at closed
    · cases closed
      simp
    · obtain ⟨m, found, rfl⟩ := Option.map_eq_some_iff.1 closed
      simpa using ih found

/-! ### Text up to the end of a block comment -/

theorem blockTail_cons (c : Char) (cs : List Char) :
    blockTail (c :: cs) =
      if c = '*' ∧ cs.head? = some '/' then some 2 else (blockTail cs).map (· + 1) := by
  rcases cs with _ | ⟨d, cs⟩
  · simp [blockTail]
  · by_cases closes : c = '*' ∧ d = '/'
    · obtain ⟨rfl, rfl⟩ := closes
      rfl
    · rw [if_neg (by simpa using closes)]
      rw [blockTail.eq_2]
      intro tail star slash
      exact closes ⟨star, (List.cons.inj slash).1⟩

theorem two_le_of_blockTail {cs : List Char} {n : Nat} (closed : blockTail cs = some n) :
    2 ≤ n := by
  induction cs generalizing n with
  | nil => cases closed
  | cons c cs ih =>
    rw [blockTail_cons] at closed
    split at closed
    · cases closed
      rfl
    · obtain ⟨m, found, rfl⟩ := Option.map_eq_some_iff.1 closed
      have := ih found
      omega

theorem blockTail_le {cs : List Char} {n : Nat} (closed : blockTail cs = some n) :
    n ≤ cs.length := by
  induction cs generalizing n with
  | nil => cases closed
  | cons c cs ih =>
    rw [blockTail_cons] at closed
    split at closed
    · rename_i here
      cases closed
      rcases cs with _ | ⟨d, cs⟩
      · cases here.2
      · simp
    · obtain ⟨m, found, rfl⟩ := Option.map_eq_some_iff.1 closed
      simpa using ih found

theorem blockTail_append_iff {cs rest : List Char} {n : Nat} (within : n ≤ cs.length) :
    blockTail (cs ++ rest) = some n ↔ blockTail cs = some n := by
  induction cs generalizing n with
  | nil =>
    obtain rfl : n = 0 := Nat.le_zero.1 within
    constructor
    · intro closed
      exact absurd (two_le_of_blockTail closed) (by omega)
    · intro closed
      cases closed
  | cons c cs ih =>
    rw [List.cons_append, blockTail_cons, blockTail_cons]
    rcases cs with _ | ⟨d, cs⟩
    · -- one character is too short for an end
      rw [List.length_singleton] at within
      constructor
      · intro closed
        have := two_le_of_blockTail ((blockTail_cons c rest).trans closed)
        omega
      · intro closed
        simp [blockTail] at closed
    · rw [List.cons_append, List.head?_cons, List.head?_cons]
      split
      · rfl
      · rcases n with _ | n
        · simp
        · have same := ih (n := n) (by simpa using within)
          rw [List.cons_append] at same
          simp [same]

/-- A text without a star closes no comment. -/
theorem blockTail_append_of_not_mem {cs : List Char} (clear : '*' ∉ cs) (ds : List Char) :
    blockTail (cs ++ ds) = none ↔ blockTail ds = none := by
  induction cs with
  | nil => rfl
  | cons c cs ih =>
    simp only [List.mem_cons, not_or] at clear
    rw [List.cons_append, blockTail_cons, if_neg (by simp [Ne.symm clear.1]),
      Option.map_eq_none_iff, ih clear.2]

/-! ### Quoted text -/

/-- An escape of a fixed number of digits reads only those. -/
theorem fixedEscape_append_iff {digits : Nat} {cs rest : List Char} {n : Nat} (positive : n ≠ 0)
    (within : n ≤ cs.length + 1) :
    (if digits ≤ (cs ++ rest).length && ((cs ++ rest).take digits).all isHexDigit then digits + 1
        else 0) = n ↔
      (if digits ≤ cs.length && (cs.take digits).all isHexDigit then digits + 1 else 0) = n := by
  by_cases long : digits ≤ cs.length
  · have long' : digits ≤ (cs ++ rest).length := by
      rw [List.length_append]
      omega
    rw [List.take_append_of_le_length long, decide_eq_true long, decide_eq_true long']
  · rw [decide_eq_false long]
    simp only [Bool.false_and, Bool.false_eq_true, if_false]
    constructor
    · intro same
      split at same <;> omega
    · intro same
      exact absurd same.symm positive

/-- An escape reads only its own characters. -/
theorem escapeLength_append_iff {cs rest : List Char} {n : Nat} (positive : n ≠ 0)
    (within : n ≤ cs.length) : escapeLength (cs ++ rest) = n ↔ escapeLength cs = n := by
  rcases cs with _ | ⟨c, cs⟩
  · exact absurd (Nat.le_zero.1 within) positive
  · rw [List.cons_append]
    rw [List.length_cons] at within
    by_cases x : c = 'x'
    · subst x
      rcases cs with _ | ⟨a, _ | ⟨b, cs⟩⟩
      · rcases rest with _ | ⟨a, _ | ⟨b, rest⟩⟩
        · rfl
        · rfl
        · simp only [List.length_nil] at within
          simp only [List.nil_append, escapeLength]
          constructor
          · intro same
            split at same <;> omega
          · intro same
            omega
      · rcases rest with _ | ⟨b, rest⟩
        · rfl
        · simp only [List.length_singleton] at within
          simp only [List.cons_append, List.nil_append, escapeLength]
          constructor
          · intro same
            split at same <;> omega
          · intro same
            omega
      · rfl
    · by_cases u : c = 'u'
      · subst u
        exact fixedEscape_append_iff positive within
      · by_cases U : c = 'U'
        · subst U
          exact fixedEscape_append_iff positive within
        · have one (tail : List Char) : escapeLength (c :: tail) = 1 := by
            simp [escapeLength, x]
          rw [one, one]

theorem lt_of_quotedTail {skip : Nat} {cs : List Char} {n : Nat}
    (closed : quotedTail skip cs = some n) : skip < n ∧ n ≤ cs.length := by
  fun_induction quotedTail skip cs generalizing n with
  | case1 => cases closed
  | case2 skip c rest ih =>
    obtain ⟨m, found, rfl⟩ := Option.map_eq_some_iff.1 closed
    have := ih found
    simp only [List.length_cons]
    omega
  | case3 => cases closed; simp
  | case4 => cases closed
  | case5 => cases closed
  | case6 rest k ih =>
    obtain ⟨m, found, rfl⟩ := Option.map_eq_some_iff.1 closed
    have := ih found
    simp only [List.length_cons]
    omega
  | case7 c rest _ _ _ ih =>
    obtain ⟨m, found, rfl⟩ := Option.map_eq_some_iff.1 closed
    have := ih found
    simp only [List.length_cons]
    omega

theorem quotedTail_backslash (cs : List Char) :
    quotedTail 0 ('\\' :: cs) =
      if escapeLength cs = 0 then none else (quotedTail (escapeLength cs) cs).map (· + 1) := by
  rw [quotedTail]
  split
  · rename_i zero
    rw [zero, if_pos rfl]
  · rename_i n nonzero
    rw [if_neg nonzero]

theorem quotedTail_append_iff {skip : Nat} {cs rest : List Char} {n : Nat}
    (within : n ≤ cs.length) :
    quotedTail skip (cs ++ rest) = some n ↔ quotedTail skip cs = some n := by
  induction cs generalizing skip n with
  | nil =>
    obtain rfl : n = 0 := Nat.le_zero.1 within
    constructor
    · intro closed
      exact absurd (lt_of_quotedTail closed).1 (by omega)
    · intro closed
      cases skip <;> cases closed
  | cons c cs ih =>
    have step (k : Nat) : (quotedTail k (cs ++ rest)).map (· + 1) = some n ↔
        (quotedTail k cs).map (· + 1) = some n := by
      rcases n with _ | n
      · simp
      · simp [ih (by simpa using within)]
    rw [List.cons_append]
    rcases skip with _ | skip
    · by_cases backslash : c = '\\'
      · subst backslash
        rw [quotedTail_backslash, quotedTail_backslash]
        constructor
        · intro closed
          split at closed
          · cases closed
          · rename_i positive
            obtain ⟨m, found, rfl⟩ := Option.map_eq_some_iff.1 closed
            rw [List.length_cons, Nat.add_le_add_iff_right] at within
            have inside := (lt_of_quotedTail found).1
            have same := (escapeLength_append_iff positive (by omega)).1 rfl
            rw [same, if_neg positive, ← step]
            exact closed
        · intro closed
          split at closed
          · cases closed
          · rename_i positive
            obtain ⟨m, found, rfl⟩ := Option.map_eq_some_iff.1 closed
            rw [List.length_cons, Nat.add_le_add_iff_right] at within
            have inside := (lt_of_quotedTail found).1
            have same : escapeLength (cs ++ rest) = escapeLength cs :=
              (escapeLength_append_iff positive (by omega)).2 rfl
            rw [same, if_neg positive, step]
            exact closed
      · by_cases quote : c = '"'
        · subst quote
          rfl
        · by_cases newline : c = '\n'
          · subst newline
            rfl
          · simpa [quotedTail, backslash, quote, newline] using step 0
    · exact step skip

/-! ### Runes -/

theorem startsWithRun_append {p : Char → Bool} {k : Nat} {cs : List Char} (rest : List Char)
    (within : k ≤ cs.length) : startsWithRun p k (cs ++ rest) = startsWithRun p k cs := by
  simp only [startsWithRun, List.take_append_of_le_length within]

/-- A body of a fixed number of digits reads only those. -/
theorem fixedBody_append_iff {p : Char → Bool} {k m : Nat} {cs rest : List Char} {n : Nat}
    (within : n = m → k ≤ cs.length) :
    (if startsWithRun p k (cs ++ rest) then some m else none) = some n ↔
      (if startsWithRun p k cs then some m else none) = some n := by
  by_cases same : n = m
  · rw [startsWithRun_append rest (within same)]
  · constructor
    · intro read
      split at read <;> simp_all
    · intro read
      split at read <;> simp_all

theorem two_le_of_runeBody {cs : List Char} {n : Nat}
    (read : runeBody ('\\' :: cs) = some n) : 2 ≤ n := by
  rcases cs with _ | ⟨d, cs⟩
  · cases read
  · rw [runeBody.eq_def] at read
    split at read
    · split_ifs at read
      cases read
      decide
    · split_ifs at read
      cases read
      decide
    · split_ifs at read
      cases read
      decide
    · split_ifs at read
      · cases read
        decide
      · cases read
        decide
    · cases read
    · cases read
    · rename_i plain _ _ same
      cases same
      exact (plain d cs rfl rfl).elim
    · cases read

theorem one_le_of_runeBody {cs : List Char} {n : Nat} (read : runeBody cs = some n) : 1 ≤ n := by
  rcases cs with _ | ⟨c, cs⟩
  · cases read
  · by_cases backslash : c = '\\'
    · subst backslash
      have := two_le_of_runeBody read
      omega
    · by_cases quote : c = '\''
      · subst quote
        cases read
      · simp [runeBody, backslash] at read
        omega

theorem runeBody_append_iff {cs rest : List Char} {n : Nat} (within : n ≤ cs.length) :
    runeBody (cs ++ rest) = some n ↔ runeBody cs = some n := by
  rcases cs with _ | ⟨c, cs⟩
  · obtain rfl : n = 0 := Nat.le_zero.1 within
    simp only [List.nil_append]
    constructor
    · intro read
      exact absurd (one_le_of_runeBody read) (by omega)
    · intro read
      cases read
  · by_cases backslash : c = '\\'
    · subst backslash
      rcases cs with _ | ⟨d, cs⟩
      · rw [List.length_singleton] at within
        constructor
        · intro read
          have := two_le_of_runeBody read
          omega
        · intro read
          cases read
      · simp only [List.length_cons] at within
        simp only [List.cons_append]
        by_cases x : d = 'x'
        · subst x
          exact fixedBody_append_iff fun same => by omega
        · by_cases u : d = 'u'
          · subst u
            exact fixedBody_append_iff fun same => by omega
          · by_cases U : d = 'U'
            · subst U
              exact fixedBody_append_iff fun same => by omega
            · simp only [runeBody]
              split
              · rfl
              · rw [← List.cons_append]
                exact fixedBody_append_iff fun same => by
                  rw [List.length_cons]
                  omega
    · by_cases quote : c = '\''
      · subst quote
        rfl
      · simp [runeBody, backslash]

theorem runeTail_append_iff {cs rest : List Char} {n : Nat} (within : n ≤ cs.length) :
    runeTail (cs ++ rest) = some n ↔ runeTail cs = some n := by
  have shape (text : List Char) : runeTail text = some n ↔
      ∃ m, runeBody text = some m ∧ (text.drop m).head? = some '\'' ∧ m + 1 = n := by
    unfold runeTail
    cases body : runeBody text with
    | none => simp
    | some m =>
      by_cases quote : (text.drop m).head? = some '\''
      · simp only [quote, if_true, Option.some.injEq]
        exact ⟨fun same => ⟨m, rfl, quote, same⟩, fun ⟨_, here, _, same⟩ => here ▸ same⟩
      · simp only [quote, if_false, reduceCtorEq, false_iff]
        rintro ⟨_, here, found, -⟩
        cases here
        exact quote found
  rw [shape, shape]
  refine exists_congr fun m => ?_
  constructor
  · rintro ⟨body, quote, rfl⟩
    rw [List.drop_append_of_le_length (by omega), List.head?_append_of_ne_nil] at quote
    · exact ⟨(runeBody_append_iff (by omega)).1 body, quote, rfl⟩
    · simp
      omega
  · rintro ⟨body, quote, rfl⟩
    refine ⟨(runeBody_append_iff (by omega)).2 body, ?_, rfl⟩
    rw [List.drop_append_of_le_length (by omega), List.head?_append_of_ne_nil]
    · exact quote
    · simp
      omega

theorem runeTail_le {cs : List Char} {n : Nat} (closed : runeTail cs = some n) :
    n ≤ cs.length := by
  unfold runeTail at closed
  split at closed
  · rename_i m body
    split at closed
    · rename_i quote
      cases closed
      by_contra beyond
      rw [List.drop_eq_nil_of_le (by omega)] at quote
      cases quote
    · cases closed
  · cases closed

/-! ### The last character -/

theorem getLast?_of_closedBy {close : Char} {cs : List Char} {n : Nat}
    (closed : closedBy close cs = some n) : (cs.take n).getLast? = some close := by
  induction cs generalizing n with
  | nil => cases closed
  | cons c cs ih =>
    simp only [closedBy] at closed
    split at closed
    · rename_i here
      cases closed
      simp [here]
    · obtain ⟨m, found, rfl⟩ := Option.map_eq_some_iff.1 closed
      simp [List.getLast?_cons, ih found]

theorem getLast?_of_blockTail {cs : List Char} {n : Nat} (closed : blockTail cs = some n) :
    (cs.take n).getLast? = some '/' := by
  induction cs generalizing n with
  | nil => cases closed
  | cons c cs ih =>
    rw [blockTail_cons] at closed
    split at closed
    · rename_i here
      obtain ⟨tail, rfl⟩ := List.head?_eq_some_iff.1 here.2
      cases closed
      simp
    · obtain ⟨m, found, rfl⟩ := Option.map_eq_some_iff.1 closed
      simp [List.getLast?_cons, ih found]

theorem getLast?_of_quotedTail {skip : Nat} {cs : List Char} {n : Nat}
    (closed : quotedTail skip cs = some n) : (cs.take n).getLast? = some '"' := by
  induction cs generalizing skip n with
  | nil => cases skip <;> cases closed
  | cons c cs ih =>
    have step {skip' : Nat} (longer : (quotedTail skip' cs).map (· + 1) = some n) :
        ((c :: cs).take n).getLast? = some '"' := by
      obtain ⟨m, found, rfl⟩ := Option.map_eq_some_iff.1 longer
      simp [List.getLast?_cons, ih found]
    cases skip with
    | succ skip => exact step closed
    | zero =>
      unfold quotedTail at closed
      split at closed
      · cases closed
      · rename_i wrong _
        cases wrong
      · rename_i same
        cases same
        cases closed
        simp
      · cases closed
      · rename_i same
        cases same
        split at closed
        · cases closed
        · exact step closed
      · rename_i same
        cases same
        exact step closed

theorem getLast?_of_runeTail {cs : List Char} {n : Nat} (closed : runeTail cs = some n) :
    (cs.take n).getLast? = some '\'' := by
  unfold runeTail at closed
  split at closed
  · rename_i m body
    split at closed
    · rename_i quote
      cases closed
      rw [List.head?_drop] at quote
      rw [List.take_add_one, quote]
      simp
    · cases closed
  · cases closed

theorem newline_not_mem_of_run {p : Char → Bool} (other : p '\n' = false) {k : Nat} {cs : List Char}
    (run : startsWithRun p k cs) : '\n' ∉ cs.take k := by
  intro member
  simp only [startsWithRun, Bool.and_eq_true, List.all_eq_true] at run
  have wrong := run.2 '\n' member
  rw [other] at wrong
  cases wrong

/-- Only a newline that stands alone between the quotes is part of a rune literal. -/
theorem newline_not_mem_of_runeBody {cs : List Char} {n : Nat} (read : runeBody cs = some n)
    (long : n ≠ 1) : '\n' ∉ cs.take n := by
  have escaped {p : Char → Bool} (other : p '\n' = false) {e : Char} (plain : e ≠ '\n') {k : Nat}
      {rest : List Char} (run : startsWithRun p k rest) :
      '\n' ∉ ('\\' :: e :: rest).take (k + 2) := by
    have clear := newline_not_mem_of_run other run
    simp [plain.symm, clear]
  unfold runeBody at read
  split at read
  · split at read
    · rename_i run
      cases read
      exact escaped (by decide) (by decide) run
    · cases read
  · split at read
    · rename_i run
      cases read
      exact escaped (by decide) (by decide) run
    · cases read
  · split at read
    · rename_i run
      cases read
      exact escaped (by decide) (by decide) run
    · cases read
  · rename_i c rest _ _ _
    split at read
    · rename_i simple
      cases read
      have plain : c ≠ '\n' := by
        rintro rfl
        revert simple
        decide
      simp [plain.symm]
    · split at read
      · rename_i run
        cases read
        have clear := newline_not_mem_of_run (p := isOctalDigit) (by decide) run
        simp only [List.take_succ_cons, List.mem_cons, not_or] at clear ⊢
        exact ⟨by decide, clear⟩
      · cases read
  · cases read
  · cases read
  · cases read
    exact absurd rfl long
  · cases read

end Marginalia.Go.Lexeme
