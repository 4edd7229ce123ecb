/-
Module: Marginalia.Proofs.Go.ImportSpec
Purpose: The words of import specs and of blocks of them, and the trees that are read off them.
Main exports:
  SpecWords, importSpec_run, Item, items_run, items_inv, Ends, itemsBefore_append,
  ItemsBefore.of_ends
-/
import Marginalia.Proofs.Go.Reading

namespace Marginalia.Go.Grammar

/-! ### Import specs -/

/-- The words of an import spec: perhaps a name or a dot, and a path. -/
structure SpecWords where
  name : Option Word
  path : Word

namespace SpecWords

/-- The words in order. -/
def words (s : SpecWords) : List Word := s.name.toList ++ [s.path]

/-- The words are of the right kinds. -/
def Valid (s : SpecWords) : Prop :=
  (∀ w ∈ s.name, isNameToken w.token ∨ w.token = .mark .dot) ∧ (literalKind? s.path.token).isSome

/-- The node of a name or dot. -/
def nameKind (w : Word) : Kind :=
  if w.token = .mark .dot then .mark .dot else .packageIdentifier

/-- The nodes below a spec with `k` words behind it. -/
def children (s : SpecWords) (k : Nat) : List Draft :=
  (s.name.map fun w => (leafAt (nameKind w) (k + 2)).withRole .name).toList ++
    [(leafAt ((literalKind? s.path.token).getD .quotedString) (k + 1)).withRole .path]

/-- The tree of a spec with `k` words behind it. -/
def draft (s : SpecWords) (k : Nat) : Draft :=
  .node .importSpec none (k + s.words.length) (k + 1) (s.children k)

end SpecWords

/-- The children of an import spec. -/
def specChildren : Reading (List Draft) := do
  match ← peek false with
  | some (.mark .dot) =>
    return [(← mark .dot).withRole .name, (← stringLiteral).withRole .path]
  | some (.word _) =>
    return [(← word .packageIdentifier).withRole .name, (← stringLiteral).withRole .path]
  | _ => return [(← stringLiteral).withRole .path]

theorem seen_cons (w : Word) (ws : List Word) : seen false (w :: ws) = some w.token := by
  simp [seen]

theorem path_run {f : Draft → List Draft} {ws : List Word} {ds : List Draft} {c : Cursor} :
    (stringLiteral >>= fun d => pure (f d) : Reading (List Draft)).run (signs ws) = some (ds, c) ↔
      ∃ path rest kind, ws = path :: rest ∧ literalKind? path.token = some kind ∧
        ds = f (leafAt kind (rest.length + 1)) ∧ c = signs rest := by
  rw [run_bind_eq_some]
  constructor
  · rintro ⟨d, middle, read, made⟩
    obtain ⟨path, rest, kind, rfl, known, rfl, rfl⟩ := stringLiteral_run.1 read
    obtain ⟨rfl, rfl⟩ := run_pure_eq_some.1 made
    exact ⟨path, rest, kind, rfl, known, rfl, rfl⟩
  · rintro ⟨path, rest, kind, rfl, known, rfl, rfl⟩
    exact ⟨_, _, stringLiteral_run.2 ⟨path, rest, kind, rfl, known, rfl, rfl⟩,
      run_pure_eq_some.2 ⟨rfl, rfl⟩⟩

theorem specChildren_run {s : SpecWords} (valid : s.Valid) (rest : List Word) :
    specChildren.run (signs (s.words ++ rest)) = some (s.children rest.length, signs rest) := by
  obtain ⟨name, path⟩ := s
  obtain ⟨named, literal⟩ := valid
  obtain ⟨kind, literal⟩ := Option.isSome_iff_exists.1 literal
  -- the path comes last, whatever stands before it
  have read (f : Draft → List Draft) := (path_run (f := f)).2
    ⟨path, rest, kind, rfl, literal, rfl, rfl⟩
  rw [specChildren, peek_bind_run]
  cases name with
  | none =>
    have first : seen false (SpecWords.words ⟨none, path⟩ ++ rest) = some path.token :=
      seen_cons path rest
    have made : SpecWords.children ⟨none, path⟩ rest.length =
        [(leafAt kind (rest.length + 1)).withRole .path] := by
      simp [SpecWords.children, literal]
    rw [first, made]
    split
    · rename_i known
      rw [Option.some.injEq] at known
      rw [known] at literal
      cases literal
    · rename_i k known
      rw [Option.some.injEq] at known
      rw [known] at literal
      cases literal
    · exact read fun d => [d.withRole .path]
  | some w =>
    have first : seen false (SpecWords.words ⟨some w, path⟩ ++ rest) = some w.token :=
      seen_cons w (path :: rest)
    have made : SpecWords.children ⟨some w, path⟩ rest.length =
        [(leafAt (SpecWords.nameKind w) (rest.length + 2)).withRole .name,
          (leafAt kind (rest.length + 1)).withRole .path] := by
      simp [SpecWords.children, literal]
    rw [first, made]
    rcases named w rfl with isName | dot
    · obtain ⟨k, known⟩ : ∃ k, w.token = .word k := by
        cases token : w.token with
        | word k => exact ⟨k, rfl⟩
        | _ =>
          rw [token] at isName
          cases isName
      have other : SpecWords.nameKind w = .packageIdentifier := by
        rw [SpecWords.nameKind, known]
        rfl
      rw [known, other]
      exact run_bind_eq_some.2 ⟨_, _, word_run.2 ⟨w, path :: rest, rfl, isName, rfl, rfl⟩,
        read fun d => [_, d.withRole .path]⟩
    · have kind_dot : SpecWords.nameKind w = .mark .dot := if_pos dot
      rw [dot, kind_dot]
      exact run_bind_eq_some.2 ⟨_, _, mark_run.2 ⟨w, path :: rest, rfl, dot, rfl, rfl⟩,
        read fun d => [_, d.withRole .path]⟩

theorem specChildren_inv {ws : List Word} {ds : List Draft} {c : Cursor}
    (read : specChildren.run (signs ws) = some (ds, c)) :
    ∃ (s : SpecWords) (rest : List Word), s.Valid ∧ ws = s.words ++ rest ∧
      ds = s.children rest.length ∧ c = signs rest := by
  rcases ws with _ | ⟨w, tail⟩
  · cases read
  rw [specChildren, peek_bind_run, seen_cons] at read
  split at read
  · obtain ⟨name, middle, dot, read⟩ := run_bind_eq_some.1 read
    obtain ⟨w', rest', same, marked, rfl, rfl⟩ := mark_run.1 dot
    cases same
    obtain ⟨path, rest, kind, rfl, literal, rfl, rfl⟩ := path_run.1 read
    refine ⟨⟨some w, path⟩, rest, ⟨by simpa using .inr marked, by simp [literal]⟩, rfl, ?_, rfl⟩
    simp [SpecWords.children, SpecWords.nameKind, marked, literal]
  · rename_i k known
    obtain ⟨name, middle, read_name, read⟩ := run_bind_eq_some.1 read
    obtain ⟨w', rest', same, isName, rfl, rfl⟩ := word_run.1 read_name
    cases same
    obtain ⟨path, rest, kind, rfl, literal, rfl, rfl⟩ := path_run.1 read
    refine ⟨⟨some w, path⟩, rest, ⟨by simpa using .inl isName, by simp [literal]⟩, rfl, ?_, rfl⟩
    have other : w.token ≠ .mark .dot := by
      rw [Option.some.injEq] at known
      rw [known]
      simp
    simp [SpecWords.children, SpecWords.nameKind, other, literal]
  · obtain ⟨path, rest, kind, same, literal, rfl, rfl⟩ := path_run.1 read
    cases same
    refine ⟨⟨none, w⟩, tail, ⟨by simp, by simp [literal]⟩, rfl, ?_, rfl⟩
    simp [SpecWords.children, literal]

/-- An import spec is read off exactly its words. -/
theorem importSpec_run {ws : List Word} {d : Draft} {c : Cursor} :
    importSpec.run (signs ws) = some (d, c) ↔
      ∃ (s : SpecWords) (rest : List Word), s.Valid ∧ ws = s.words ++ rest ∧
        d = s.draft rest.length ∧ c = signs rest := by
  have unfolded : importSpec = node .importSpec specChildren := rfl
  have sized (s : SpecWords) (rest : List Word) :
      s.draft rest.length = .node .importSpec none (s.words ++ rest).length
        ((signs rest).length + 1) (s.children rest.length) := by
    rw [SpecWords.draft, List.length_append, Nat.add_comm, length_signs]
  rw [unfolded, node_run]
  constructor
  · rintro ⟨nonempty, ds, read, rfl⟩
    obtain ⟨s, rest, valid, rfl, rfl, rfl⟩ := specChildren_inv read
    exact ⟨s, rest, valid, rfl, (sized s rest).symm, rfl⟩
  · rintro ⟨s, rest, valid, rfl, rfl, rfl⟩
    exact ⟨by simp [SpecWords.words], _, specChildren_run valid rest, sized s rest⟩

/-! ### Blocks of import specs -/

/-- An import spec in a block, with the word that ends it if there is one. -/
structure Item where
  spec : SpecWords
  sep : Option Word

/-- The words of an item. -/
def Item.words (i : Item) : List Word := i.spec.words ++ i.sep.toList

/-- The trees of an item with `k` words behind it. -/
def Item.drafts (i : Item) (k : Nat) : List Draft :=
  i.spec.draft (i.sep.toList.length + k) :: separatorDrafts i.sep k

/-- An item is ended by a separator, or by the parenthesis that closes the block. -/
def Item.Before (rest : List Word) (i : Item) : Prop :=
  i.spec.Valid ∧
    (Separates i.sep rest ∨ i.sep = none ∧ seen true rest = some (.mark .parenR))

theorem unflag_of_seen {m : Mark} {ws : List Word} (next : seen true ws = some (.mark m)) :
    unflag ws = ws := by
  rcases ws with _ | ⟨⟨token, newline, text⟩, rest⟩
  · rfl
  · cases newline with
    | false => rfl
    | true => simp [seen] at next

/-- The reader of one item. -/
def listedItem : Reading (Option (List Draft)) := do
  if ← atMark false .parenR then return none
  let t ← importSpec
  match ← terminator? with
  | some ts => return some (t :: ts)
  | none => if ← atMark true .parenR then return some [t] else failure

theorem seen_words {s : SpecWords} (valid : s.Valid) (rest : List Word) {m : Mark}
    (other : m ≠ .dot) : (seen false (s.words ++ rest) == some (.mark m)) = false := by
  rw [beq_eq_false_iff_ne]
  obtain ⟨_ | w, path⟩ := s
  · intro wrong
    have token : path.token = .mark m := by simpa [SpecWords.words, seen] using wrong
    have literal := valid.2
    rw [token] at literal
    cases literal
  · intro wrong
    have token : w.token = .mark m := by simpa [SpecWords.words, seen] using wrong
    rcases valid.1 w rfl with named | dot
    · rw [token] at named
      cases named
    · rw [token] at dot
      cases dot
      exact other rfl

theorem terminator?_of_close {ws : List Word} (close : seen true ws = some (.mark .parenR)) :
    terminator?.run (signs ws) = some (none, signs ws) := by
  rcases terminator?_cases ws with ⟨sep, rest, rfl, separates⟩ | unterminated
  · cases sep with
    | none =>
      have newline : seen true rest = some .newline := separates
      rw [Option.toList_none, List.nil_append, newline] at close
      cases close
    | some w =>
      have same : seen true [w] = some (.mark .parenR) := close
      simp [Separates, isTerminator, same] at separates
  · exact unterminated

theorem listedItem_run {i : Item} {rest : List Word} (before : i.Before rest) :
    listedItem.run (signs (i.words ++ rest)) =
      some (some (i.drafts rest.length), signs (unflag rest)) := by
  obtain ⟨spec, sep⟩ := i
  obtain ⟨valid, ends⟩ := before
  have read := importSpec_run.2 ⟨spec, sep.toList ++ rest, valid, rfl, rfl, rfl⟩
  rw [Item.words, List.append_assoc, listedItem, atMark_bind_run, seen_words valid _ (by decide)]
  refine run_bind_eq_some.2 ⟨_, _, read, ?_⟩
  rw [Item.drafts, List.length_append]
  rcases ends with separates | ⟨rfl, close⟩
  · exact run_bind_eq_some.2 ⟨_, _, terminator?_run separates, rfl⟩
  · refine run_bind_eq_some.2 ⟨_, _, terminator?_of_close close, ?_⟩
    rw [unflag_of_seen close]
    have closed := atMark_bind_run true .parenR (fun closed =>
      if closed then pure (some [spec.draft (rest.length)]) else failure) rest
    rw [close] at closed
    simpa [separatorDrafts] using closed

theorem listedItem_inv {ws : List Word} {ts : List Draft} {c : Cursor}
    (read : listedItem.run (signs ws) = some (some ts, c)) :
    ∃ (i : Item) (rest : List Word), i.Before rest ∧ ws = i.words ++ rest ∧
      ts = i.drafts rest.length ∧ c = signs (unflag rest) := by
  rw [listedItem, atMark_bind_run] at read
  split at read
  · obtain ⟨wrong, -⟩ := run_pure_eq_some.1 read
    cases wrong
  obtain ⟨t, middle, read_spec, read⟩ := run_bind_eq_some.1 read
  obtain ⟨spec, behind, valid, rfl, rfl, rfl⟩ := importSpec_run.1 read_spec
  obtain ⟨ended, last, read_end, read⟩ := run_bind_eq_some.1 read
  rcases terminator?_cases behind with ⟨sep, rest, rfl, separates⟩ | unterminated
  · rw [terminator?_run separates] at read_end
    cases read_end
    obtain ⟨made, rfl⟩ := run_pure_eq_some.1 read
    cases made
    refine ⟨⟨spec, sep⟩, rest, ⟨valid, .inl separates⟩, ?_, ?_, rfl⟩
    · rw [Item.words, List.append_assoc]
    · rw [Item.drafts, List.length_append]
  · rw [unterminated] at read_end
    cases read_end
    dsimp only at read
    rw [atMark_bind_run] at read
    split at read
    · rename_i closes
      have close : seen true behind = some (.mark .parenR) := by simpa using closes
      obtain ⟨made, rfl⟩ := run_pure_eq_some.1 read
      cases made
      refine ⟨⟨spec, none⟩, behind, ⟨valid, .inr ⟨rfl, close⟩⟩, ?_, ?_, ?_⟩
      · simp [Item.words]
      · simp [Item.drafts, separatorDrafts]
      · rw [unflag_of_seen close]
    · exact (run_failure_eq_some.1 read).elim

theorem listedItem_none {ws : List Word} {c : Cursor} :
    listedItem.run (signs ws) = some (none, c) ↔
      seen false ws = some (.mark .parenR) ∧ c = signs ws := by
  rw [listedItem, atMark_bind_run]
  constructor
  · intro read
    split at read
    · rename_i closes
      obtain ⟨-, rfl⟩ := run_pure_eq_some.1 read
      exact ⟨by simpa using closes, rfl⟩
    · obtain ⟨t, middle, -, read⟩ := run_bind_eq_some.1 read
      obtain ⟨ended, last, -, read⟩ := run_bind_eq_some.1 read
      split at read
      · obtain ⟨wrong, -⟩ := run_pure_eq_some.1 read
        cases wrong
      · obtain ⟨closes, last', -, read⟩ := run_bind_eq_some.1 read
        split at read
        · obtain ⟨wrong, -⟩ := run_pure_eq_some.1 read
          cases wrong
        · exact (run_failure_eq_some.1 read).elim
  · rintro ⟨close, rfl⟩
    rw [close]
    rfl

theorem length_unflag (ws : List Word) : (unflag ws).length = ws.length := by
  cases ws <;> rfl

theorem unflag_unflag (ws : List Word) : unflag (unflag ws) = unflag ws := by
  cases ws <;> rfl

theorem seen_false_of_unflag {ws ws' : List Word} (same : unflag ws = unflag ws') :
    seen false ws = seen false ws' := by
  rcases ws with _ | ⟨w, rest⟩ <;> rcases ws' with _ | ⟨w', rest'⟩
  · rfl
  · cases same
  · cases same
  · simp only [unflag, List.cons.injEq, Word.mk.injEq] at same
    simp [seen, same.1.1]

/-- Whether a newline stands before its first word makes no difference to an item. -/
theorem Item.exists_of_unflag {ws tail : List Word} {i : Item}
    (same : unflag ws = unflag (i.words ++ tail)) :
    ∃ i' : Item, ws = i'.words ++ tail ∧ (∀ rest, i'.Before rest ↔ i.Before rest) ∧
      (∀ k, i'.drafts k = i.drafts k) ∧
      i'.spec.name.map Word.text = i.spec.name.map Word.text ∧
      i'.spec.path.text = i.spec.path.text := by
  obtain ⟨⟨_ | name, path⟩, sep⟩ := i
  · rcases ws with _ | ⟨w, rest⟩
    · cases same
    · simp only [Item.words, SpecWords.words, Option.toList_none, List.nil_append, List.cons_append,
        unflag, List.cons.injEq, Word.mk.injEq, true_and] at same
      obtain ⟨⟨token, text⟩, rfl⟩ := same
      refine ⟨⟨⟨none, w⟩, sep⟩, rfl, ?_, ?_, rfl, text⟩
      · intro rest
        simp [Item.Before, SpecWords.Valid, token]
      · intro k
        simp [Item.drafts, SpecWords.draft, SpecWords.words, SpecWords.children, token]
  · rcases ws with _ | ⟨w, rest⟩
    · cases same
    · simp only [Item.words, SpecWords.words, Option.toList_some, List.cons_append,
        unflag, List.cons.injEq, Word.mk.injEq, true_and] at same
      obtain ⟨⟨token, text⟩, rfl⟩ := same
      refine ⟨⟨⟨some w, path⟩, sep⟩, rfl, ?_, ?_, by simp [text], rfl⟩
      · intro rest
        simp [Item.Before, SpecWords.Valid, token]
      · intro k
        simp [Item.drafts, SpecWords.draft, SpecWords.words, SpecWords.children, SpecWords.nameKind,
          token]

/-- The words of items. -/
def wordsOf (items : List Item) : List Word := items.flatMap Item.words

/-- The trees of items with `k` words behind them. -/
def itemsDrafts (k : Nat) : List Item → List Draft
  | [] => []
  | i :: items => i.drafts ((wordsOf items).length + k) ++ itemsDrafts k items

/-- Every item is ended, with `rest` behind the last one. -/
def ItemsBefore (rest : List Word) : List Item → Prop
  | [] => True
  | i :: items => i.Before (wordsOf items ++ rest) ∧ ItemsBefore rest items

theorem Item.words_ne_nil (i : Item) : i.words ≠ [] := by
  simp [Item.words, SpecWords.words]

theorem items_run {items : List Item} {rest ws : List Word} (before : ItemsBefore rest items)
    (close : seen false rest = some (.mark .parenR))
    (same : unflag ws = unflag (wordsOf items ++ rest)) :
    ∃ rest', unflag rest' = unflag rest ∧
      (repeatWhile listedItem).run (signs ws) =
        some (itemsDrafts rest.length items, signs rest') := by
  induction items generalizing ws with
  | nil =>
    refine ⟨ws, same, repeatWhile_run.2 (.inl ⟨listedItem_none.2 ⟨?_, rfl⟩, rfl⟩)⟩
    rw [seen_false_of_unflag same]
    exact close
  | cons i items ih =>
    have split : wordsOf (i :: items) ++ rest = i.words ++ (wordsOf items ++ rest) := by
      simp [wordsOf]
    rw [split] at same
    obtain ⟨i', rfl, iff, made, -⟩ := Item.exists_of_unflag same
    obtain ⟨rest', last, read⟩ := ih before.2 (unflag_unflag (wordsOf items ++ rest))
    refine ⟨rest', last, repeatWhile_run.2 (.inr ⟨_, _, _, listedItem_run ((iff _).2 before.1), ?_,
      read, ?_⟩)⟩
    · have := List.length_pos_of_ne_nil i'.words_ne_nil
      simp only [length_signs, length_unflag, List.length_append]
      omega
    · rw [made, List.length_append]
      rfl

theorem items_inv {ws ws' : List Word} {ds : List Draft} {c : Cursor}
    (read : (repeatWhile listedItem).run (signs ws) = some (ds, c))
    (same : unflag ws' = unflag ws) :
    ∃ (items : List Item) (rest rest' : List Word), ws' = wordsOf items ++ rest ∧
      ItemsBefore rest items ∧ seen false rest = some (.mark .parenR) ∧
      ds = itemsDrafts rest.length items ∧ unflag rest' = unflag rest ∧ c = signs rest' := by
  induction len : ws.length using Nat.strong_induction_on generalizing ws ws' ds with
  | _ n ih =>
    rcases repeatWhile_run.1 read with ⟨stopped, rfl⟩ | ⟨ts, middle, us, first, shorter, later, rfl⟩
    · obtain ⟨close, rfl⟩ := listedItem_none.1 stopped
      refine ⟨[], ws', ws, rfl, trivial, ?_, rfl, same.symm, rfl⟩
      rw [seen_false_of_unflag same]
      exact close
    · obtain ⟨i, tail, before, rfl, rfl, rfl⟩ := listedItem_inv first
      obtain ⟨i', rfl, iff, made, -⟩ := Item.exists_of_unflag same
      simp only [length_signs] at shorter
      obtain ⟨items, rest, rest', rfl, inner, close, rfl, last, rfl⟩ :=
        ih _ (len ▸ shorter) later (unflag_unflag tail).symm rfl
      refine ⟨i' :: items, rest, rest', ?_, ⟨(iff _).2 before, inner⟩, close, ?_, last, rfl⟩
      · simp [wordsOf]
      · rw [itemsDrafts, made, List.length_append]

/-! ### Items in a row -/

/-- Words in front of which an item may end without a separator. -/
def Ends (rest : List Word) : Prop :=
  seen true rest = some .newline ∨ seen true rest = some (.mark .parenR)

theorem Ends.congr {rest rest' : List Word} (same : rest.head? = rest'.head?) :
    Ends rest ↔ Ends rest' := by
  simp [Ends, seen, same]

theorem Item.before_iff {i : Item} {rest : List Word} :
    i.Before rest ↔
      i.spec.Valid ∧ (∀ w ∈ i.sep, isTerminator w) ∧ (i.sep = none → Ends rest) := by
  unfold Item.Before Separates Ends
  cases i.sep with
  | none => simp
  | some w => simp

theorem wordsOf_append (first second : List Item) :
    wordsOf (first ++ second) = wordsOf first ++ wordsOf second := by
  simp [wordsOf]

theorem itemsBefore_append {rest : List Word} {first second : List Item} :
    ItemsBefore rest (first ++ second) ↔
      ItemsBefore (wordsOf second ++ rest) first ∧ ItemsBefore rest second := by
  induction first with
  | nil => simp [ItemsBefore]
  | cons i first ih =>
    rw [List.cons_append, ItemsBefore, ItemsBefore, ih, wordsOf_append, List.append_assoc,
      and_assoc]

theorem head?_wordsOf_append (i : Item) (items : List Item) (rest : List Word) :
    (wordsOf (i :: items) ++ rest).head? = i.words.head? := by
  obtain ⟨w, ws, nonempty⟩ := List.exists_cons_of_ne_nil i.words_ne_nil
  simp [wordsOf, nonempty]

/-- What follows items matters only where the last of them ends without a separator. -/
theorem ItemsBefore.of_ends {rest rest' : List Word} (ends : Ends rest → Ends rest')
    {items : List Item} (before : ItemsBefore rest items) : ItemsBefore rest' items := by
  induction items with
  | nil => trivial
  | cons i items ih =>
    refine ⟨?_, ih before.2⟩
    rw [Item.before_iff]
    obtain ⟨valid, separates, bare⟩ := Item.before_iff.1 before.1
    refine ⟨valid, separates, fun absent => ?_⟩
    cases items with
    | nil => exact ends (bare absent)
    | cons j items =>
      refine (Ends.congr ?_).1 (bare absent)
      rw [head?_wordsOf_append, head?_wordsOf_append]

theorem length_wordsOf_take_lt {items : List Item} {i j : Nat} (lt : i < j)
    (le : j ≤ items.length) :
    (wordsOf (items.take i)).length < (wordsOf (items.take j)).length := by
  have split : items.take j = items.take i ++ (items.drop i).take (j - i) := by
    rw [← List.take_add]
    congr 1
    omega
  obtain ⟨k, tail, more⟩ : ∃ k tail, (items.drop i).take (j - i) = k :: tail := by
    refine List.exists_cons_of_ne_nil (List.ne_nil_of_length_pos ?_)
    rw [List.length_take, List.length_drop]
    omega
  have := List.length_pos_of_ne_nil k.words_ne_nil
  rw [split, wordsOf_append, List.length_append, more]
  simp only [wordsOf, List.flatMap_cons, List.length_append]
  omega

end Marginalia.Go.Grammar
