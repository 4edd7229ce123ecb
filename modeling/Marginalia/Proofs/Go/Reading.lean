/-
Module: Marginalia.Proofs.Go.Reading
Purpose: What the readers of the grammar take of the words of a text, and what they make of it.
Main exports:
  signs, leafAt, run_bind_eq_some, mark_run, keyword_run, word_run, stringLiteral_run, node_run,
  Separates, terminator?_run, repeatWhile_run
-/
import Marginalia.Proofs.Go.Lexing

namespace Marginalia.Go.Grammar

/-! ### Sequences -/

theorem run_bind_eq_some {α β : Type} {x : Reading α} {f : α → Reading β} {c c' : Cursor} {b : β} :
    (x >>= f).run c = some (b, c') ↔
      ∃ a middle, x.run c = some (a, middle) ∧ (f a).run middle = some (b, c') := by
  rw [StateT.run_bind]
  show (x.run c).bind _ = _ ↔ _
  rw [Option.bind_eq_some_iff]
  constructor
  · rintro ⟨⟨a, middle⟩, first, second⟩
    exact ⟨a, middle, first, second⟩
  · rintro ⟨a, middle, first, second⟩
    exact ⟨(a, middle), first, second⟩

theorem run_pure_eq_some {α : Type} {a b : α} {c c' : Cursor} :
    (pure a : Reading α).run c = some (b, c') ↔ b = a ∧ c' = c := by
  show some (a, c) = some (b, c') ↔ _
  simp only [Option.some.injEq, Prod.mk.injEq]
  exact ⟨fun same => ⟨same.1.symm, same.2.symm⟩, fun same => ⟨same.1.symm, same.2.symm⟩⟩

theorem run_failure_eq_some {α : Type} {a : α} {c c' : Cursor} :
    (failure : Reading α).run c = some (a, c') ↔ False := by
  show (none : Option (α × Cursor)) = _ ↔ _
  simp

/-! ### Single words -/

/-- What the grammar sees of words. -/
def signs (ws : List Word) : Cursor := ws.map Word.sign

@[simp]
theorem length_signs (ws : List Word) : (signs ws).length = ws.length := List.length_map ..

/-- The node of a single word with a number. -/
def leafAt (kind : Kind) (number : Nat) : Draft := .node kind none number number []

/-- What is seen of the next word. -/
def seen (line : Bool) (ws : List Word) : Option Token :=
  ws.head?.map fun w => if line && w.afterNewline then .newline else w.token

theorem peek_run (line : Bool) (ws : List Word) :
    (peek line).run (signs ws) = some (seen line ws, signs ws) := by
  cases ws <;> rfl

theorem take_run {ws : List Word} {t : Taken} {c : Cursor} :
    take.run (signs ws) = some (t, c) ↔
      ∃ w rest, ws = w :: rest ∧ t = ⟨w.token, rest.length + 1⟩ ∧ c = signs rest := by
  cases ws with
  | nil =>
    constructor
    · intro wrong
      cases wrong
    · rintro ⟨w, rest, wrong, -⟩
      cases wrong
  | cons w rest =>
    show some ((⟨w.token, (signs rest).length + 1⟩ : Taken), signs rest) = some (t, c) ↔ _
    rw [length_signs, Option.some.injEq, Prod.mk.injEq]
    constructor
    · rintro ⟨rfl, rfl⟩
      exact ⟨w, rest, rfl, rfl, rfl⟩
    · rintro ⟨w', rest', same, rfl, rfl⟩
      cases same
      exact ⟨rfl, rfl⟩

/-- The node of a word that was taken, of a kind that the token decides. -/
def leafOf (kind? : Token → Option Kind) (t : Taken) : Reading Draft :=
  match kind? t.token with
  | some kind => pure (leaf kind t)
  | none => failure

theorem leaf_run (kind? : Token → Option Kind) {make : Taken → Reading Draft}
    (makes : ∀ t, make t = leafOf kind? t) {ws : List Word} {d : Draft} {c : Cursor} :
    (take >>= make).run (signs ws) = some (d, c) ↔
      ∃ w rest kind, ws = w :: rest ∧ kind? w.token = some kind ∧
        d = leafAt kind (rest.length + 1) ∧ c = signs rest := by
  rw [run_bind_eq_some]
  simp only [makes]
  constructor
  · rintro ⟨t, middle, taken, made⟩
    obtain ⟨w, rest, rfl, rfl, rfl⟩ := take_run.1 taken
    dsimp only [leafOf] at made
    split at made
    · rename_i kind known
      obtain ⟨rfl, rfl⟩ := run_pure_eq_some.1 made
      exact ⟨w, rest, kind, rfl, known, rfl, rfl⟩
    · exact (run_failure_eq_some.1 made).elim
  · rintro ⟨w, rest, kind, rfl, known, rfl, rfl⟩
    refine ⟨⟨w.token, rest.length + 1⟩, signs rest, take_run.2 ⟨w, rest, rfl, rfl, rfl⟩, ?_⟩
    rw [leafOf]
    dsimp only
    rw [known]
    exact run_pure_eq_some.2 ⟨rfl, rfl⟩

theorem mark_run {m : Mark} {ws : List Word} {d : Draft} {c : Cursor} :
    (mark m).run (signs ws) = some (d, c) ↔
      ∃ w rest, ws = w :: rest ∧ w.token = .mark m ∧ d = leafAt (.mark m) (rest.length + 1) ∧
        c = signs rest := by
  rw [mark, leaf_run fun token => if token = .mark m then some (.mark m) else none]
  · simp
  · intro t
    by_cases known : t.token = .mark m <;> simp [leafOf, known]

theorem keyword_run {k : Keyword} {ws : List Word} {d : Draft} {c : Cursor} :
    (keyword k).run (signs ws) = some (d, c) ↔
      ∃ w rest, ws = w :: rest ∧ w.token = .word (some k) ∧
        d = leafAt (.keyword k) (rest.length + 1) ∧ c = signs rest := by
  rw [keyword, leaf_run fun token => if token = .word (some k) then some (.keyword k) else none]
  · simp
  · intro t
    by_cases known : t.token = .word (some k) <;> simp [leafOf, known]

/-- Whether a token is a word. -/
def isNameToken : Token → Bool
  | .word _ => true
  | _ => false

theorem word_run {kind : Kind} {ws : List Word} {d : Draft} {c : Cursor} :
    (word kind).run (signs ws) = some (d, c) ↔
      ∃ w rest, ws = w :: rest ∧ isNameToken w.token ∧ d = leafAt kind (rest.length + 1) ∧
        c = signs rest := by
  rw [word, leaf_run fun token => if isNameToken token then some kind else none]
  · simp
  · rintro ⟨token, number⟩
    cases token <;> rfl

/-- The kind of a string literal. -/
def literalKind? : Token → Option Kind
  | .quoted => some .quotedString
  | .raw => some .rawString
  | _ => none

theorem stringLiteral_run {ws : List Word} {d : Draft} {c : Cursor} :
    stringLiteral.run (signs ws) = some (d, c) ↔
      ∃ w rest kind, ws = w :: rest ∧ literalKind? w.token = some kind ∧
        d = leafAt kind (rest.length + 1) ∧ c = signs rest := by
  rw [stringLiteral, leaf_run literalKind?]
  rintro ⟨token, number⟩
  cases token <;> rfl

theorem node_run {kind : Kind} {children : Reading (List Draft)} {ws : List Word} {d : Draft}
    {c : Cursor} :
    (node kind children).run (signs ws) = some (d, c) ↔
      ws ≠ [] ∧ ∃ ds, children.run (signs ws) = some (ds, c) ∧
        d = .node kind none ws.length (c.length + 1) ds := by
  cases ws with
  | nil =>
    constructor
    · intro wrong
      cases wrong
    · rintro ⟨wrong, -⟩
      exact absurd rfl wrong
  | cons w rest =>
    have unfolded : (node kind children).run (signs (w :: rest)) =
        (children >>= fun ds => lastNumber >>= fun last =>
          pure (.node kind none ((signs rest).length + 1) last ds)).run (signs (w :: rest)) := rfl
    rw [unfolded, run_bind_eq_some]
    constructor
    · rintro ⟨ds, middle, read, made⟩
      obtain ⟨last, middle', counted, made⟩ := run_bind_eq_some.1 made
      cases counted
      obtain ⟨rfl, rfl⟩ := run_pure_eq_some.1 made
      exact ⟨by simp, ds, read, by simp⟩
    · rintro ⟨-, ds, read, rfl⟩
      refine ⟨ds, c, read, run_bind_eq_some.2 ⟨c.length + 1, c, rfl, ?_⟩⟩
      exact run_pure_eq_some.2 ⟨by simp, rfl⟩

/-! ### Terminators -/

theorem passNewline_run (ws : List Word) :
    passNewline.run (signs ws) = some ((), signs (unflag ws)) := by
  cases ws <;> rfl

/-- A word that ends a construct. -/
def isTerminator (w : Word) : Bool :=
  seen true [w] == some (.mark .semicolon) || seen true [w] == some (.mark .nul)

/-- What stands between two constructs: a word that ends the first, or a newline before the rest. -/
def Separates (sep : Option Word) (rest : List Word) : Prop :=
  match sep with
  | some w => isTerminator w
  | none => seen true rest = some .newline

/-- The nodes of a separator with `k` words behind it. -/
def separatorDrafts (sep : Option Word) (k : Nat) : List Draft :=
  match sep with
  | some ⟨.mark m, _, _⟩ => [leafAt (.mark m) (k + 1)]
  | _ => []

theorem isTerminator_iff {w : Word} :
    isTerminator w ↔
      w.afterNewline = false ∧ (w.token = .mark .semicolon ∨ w.token = .mark .nul) := by
  obtain ⟨token, newline, text⟩ := w
  cases newline <;> simp [isTerminator, seen]

theorem terminator?_run {sep : Option Word} {rest : List Word} (separates : Separates sep rest) :
    terminator?.run (signs (sep.toList ++ rest)) =
      some (some (separatorDrafts sep rest.length), signs (unflag rest)) := by
  cases sep with
  | none =>
    have newline : seen true rest = some .newline := separates
    rw [Option.toList_none, List.nil_append]
    have unfolded := peek_run true rest
    rw [newline] at unfolded
    refine run_bind_eq_some.2 ⟨_, _, unfolded, ?_⟩
    exact run_bind_eq_some.2 ⟨_, _, passNewline_run rest, rfl⟩
  | some w =>
    obtain ⟨token, newline, text⟩ := w
    obtain ⟨unbroken, kind⟩ := isTerminator_iff.1 separates
    obtain rfl : newline = false := unbroken
    rcases kind with rfl | rfl
    · rw [separatorDrafts, ← length_signs rest]
      cases rest <;> rfl
    · rw [separatorDrafts, ← length_signs rest]
      cases rest <;> rfl

/-- Words start with a separator, or no terminator is read off them. -/
theorem terminator?_cases (ws : List Word) :
    (∃ sep rest, ws = sep.toList ++ rest ∧ Separates sep rest) ∨
      terminator?.run (signs ws) = some (none, signs ws) := by
  by_cases newline : seen true ws = some .newline
  · exact .inl ⟨none, ws, rfl, newline⟩
  rcases ws with _ | ⟨w, rest⟩
  · exact .inr rfl
  by_cases ends : isTerminator w = true
  · exact .inl ⟨some w, rest, rfl, ends⟩
  · simp only [isTerminator, Bool.or_eq_true, beq_iff_eq, not_or] at ends
    refine .inr (run_bind_eq_some.2 ⟨_, _, peek_run true (w :: rest), ?_⟩)
    have same : seen true (w :: rest) = seen true [w] := rfl
    rw [same] at newline ⊢
    split
    · exact absurd ‹_› newline
    · exact absurd ‹_› ends.1
    · exact absurd ‹_› ends.2
    · rfl

theorem peek_bind_run {α : Type} (line : Bool) (f : Option Token → Reading α) (ws : List Word) :
    (peek line >>= f).run (signs ws) = (f (seen line ws)).run (signs ws) := by
  cases ws <;> rfl

theorem atMark_bind_run {α : Type} (line : Bool) (m : Mark) (f : Bool → Reading α)
    (ws : List Word) :
    (atMark line m >>= f).run (signs ws) =
      (f (seen line ws == some (.mark m))).run (signs ws) := by
  cases ws <;> rfl

/-! ### Repetition -/

/-- One trial: the end where the reader declines, and else the other trials behind what it took. -/
theorem repeatUpTo_succ (n : Nat) (reader : Reading (Option (List Draft))) (c : Cursor) :
    (repeatUpTo (n + 1) reader).run c = (reader.run c).bind fun r =>
      r.1.elim (some ([], r.2)) fun ts =>
        if r.2.length < c.length then
          ((repeatUpTo n reader).run r.2).map fun rest => (ts ++ rest.1, rest.2)
        else none := by
  show (reader.run c).bind _ = _
  refine Option.bind_congr fun r _ => ?_
  obtain ⟨_ | ts, c'⟩ := r
  · rfl
  · show (ite (c'.length < c.length) _ _ : Reading (List Draft)).run c' = _
    rw [Option.elim_some]
    split
    · rw [StateT.run_bind]
      show ((repeatUpTo n reader).run c').bind _ = _
      cases (repeatUpTo n reader).run c' <;> rfl
    · rfl

/-- More trials than there are words left make no difference. -/
theorem repeatUpTo_congr (reader : Reading (Option (List Draft))) {n m : Nat} {c : Cursor}
    (enough : c.length < n) (enough' : c.length < m) :
    (repeatUpTo n reader).run c = (repeatUpTo m reader).run c := by
  induction n generalizing m c with
  | zero => omega
  | succ n ih =>
    obtain ⟨m, rfl⟩ := Nat.exists_eq_add_one_of_ne_zero (by omega : m ≠ 0)
    rw [repeatUpTo_succ, repeatUpTo_succ]
    refine Option.bind_congr fun r _ => ?_
    obtain ⟨_ | ts, c'⟩ := r
    · rfl
    · rw [Option.elim_some, Option.elim_some]
      split
      · rw [ih (m := m) (by omega) (by omega)]
      · rfl

/-- A repetition ends where the reader declines, and else goes on behind what it took. -/
theorem repeatWhile_run {reader : Reading (Option (List Draft))} {c c' : Cursor} {ds : List Draft} :
    (repeatWhile reader).run c = some (ds, c') ↔
      (reader.run c = some (none, c') ∧ ds = []) ∨
        ∃ ts middle us, reader.run c = some (some ts, middle) ∧ middle.length < c.length ∧
          (repeatWhile reader).run middle = some (us, c') ∧ ds = ts ++ us := by
  have unfolded (c : Cursor) :
      (repeatWhile reader).run c = (repeatUpTo (c.length + 1) reader).run c := rfl
  rw [unfolded, repeatUpTo_succ]
  rcases reader.run c with _ | ⟨_ | ts, middle⟩
  · simp
  · simp [and_comm, eq_comm]
  · rw [Option.bind_some, Option.elim_some]
    by_cases shorter : middle.length < c.length
    · have same := repeatUpTo_congr reader shorter (Nat.lt_succ_self middle.length)
      rw [if_pos shorter, same, ← unfolded]
      constructor
      · intro read
        obtain ⟨⟨us, last⟩, inner, made⟩ := Option.map_eq_some_iff.1 read
        cases made
        exact .inr ⟨ts, middle, us, rfl, shorter, inner, rfl⟩
      · rintro (⟨wrong, -⟩ | ⟨ts', middle', us, known, -, inner, rfl⟩)
        · cases wrong
        · cases known
          rw [inner]
          rfl
    · rw [if_neg shorter]
      constructor
      · intro wrong
        cases wrong
      · rintro (⟨wrong, -⟩ | ⟨ts', middle', us, known, shorter', -⟩)
        · cases wrong
        · cases known
          exact absurd shorter' shorter

end Marginalia.Go.Grammar
