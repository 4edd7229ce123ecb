/-
Module: Marginalia.Proofs.Go.ImportDecl
Purpose: The words of import declarations, and the trees that are read off them.
Main exports:
  DeclWords, DeclWords.Valid, specList_run, specList_inv, importDeclaration_run
-/
import Marginalia.Proofs.Go.ImportSpec

namespace Marginalia.Go.Grammar

/-- The words of an import declaration, with a single spec or with a block. -/
inductive DeclWords where
  | single (key : Word) (spec : SpecWords)
  | block (key opening : Word) (items : List Item) (close : Word)

namespace DeclWords

/-- The words in order. -/
def words : DeclWords → List Word
  | .single key spec => key :: spec.words
  | .block key opening items close => key :: opening :: (wordsOf items ++ [close])

/-- The words are of the right kinds, and the items of a block are separated. -/
def Valid : DeclWords → Prop
  | .single key spec => key.token = .word (some .importWord) ∧ spec.Valid
  | .block key opening items close =>
    key.token = .word (some .importWord) ∧ opening.token = .mark .parenL ∧
      ItemsBefore [close] items ∧ close.token = .mark .parenR

/-- The node that holds the specs of a block, with `k` words behind it. -/
def listDraft (items : List Item) (k : Nat) : Draft :=
  .node .importSpecList none (k + (wordsOf items).length + 2) (k + 1)
    (leafAt (.mark .parenL) (k + (wordsOf items).length + 2) :: itemsDrafts (k + 1) items ++
      [leafAt (.mark .parenR) (k + 1)])

/-- The node below a declaration, after its keyword. -/
def content (k : Nat) : DeclWords → Draft
  | .single _ spec => spec.draft k
  | .block _ _ items _ => listDraft items k

/-- The nodes below a declaration with `k` words behind it. -/
def children (decl : DeclWords) (k : Nat) : List Draft :=
  [leafAt (.keyword .importWord) (k + decl.words.length), decl.content k]

/-- The tree of a declaration with `k` words behind it. -/
def draft (decl : DeclWords) (k : Nat) : Draft :=
  .node .importDeclaration none (k + decl.words.length) (k + 1) (decl.children k)

theorem words_ne_nil (decl : DeclWords) : decl.words ≠ [] := by
  cases decl <;> simp [words]

end DeclWords

/-- A declaration does not end with a dot. -/
theorem DeclWords.Valid.exists_last {decl : DeclWords} (valid : decl.Valid) :
    ∃ front w, decl.words = front ++ [w] ∧ w.token ≠ .mark .dot := by
  cases decl with
  | single key spec =>
    refine ⟨key :: spec.name.toList, spec.path, rfl, fun dot => ?_⟩
    have literal := valid.2.2
    rw [dot] at literal
    cases literal
  | block key opening items close =>
    refine ⟨key :: opening :: wordsOf items, close, rfl, fun dot => ?_⟩
    have closes := valid.2.2.2
    rw [dot] at closes
    cases closes

/-- The block of an import declaration. -/
def specList : Reading Draft := node .importSpecList (listed .parenL .parenR importSpec)

theorem itemsBefore_cons {close : Word} {rest : List Word} {items : List Item} :
    ItemsBefore (close :: rest) items ↔ ItemsBefore [close] items :=
  have same : Ends (close :: rest) ↔ Ends [close] := Ends.congr rfl
  ⟨.of_ends same.1, .of_ends same.2⟩

theorem specList_run {opening close : Word} {items : List Item}
    (opens : opening.token = .mark .parenL) (before : ItemsBefore [close] items)
    (closes : close.token = .mark .parenR) (rest : List Word) :
    specList.run (signs (opening :: (wordsOf items ++ close :: rest))) =
      some (DeclWords.listDraft items rest.length, signs rest) := by
  have shown : seen false (close :: rest) = some (.mark .parenR) := by rw [seen_cons, closes]
  have before' : ItemsBefore (close :: rest) items := itemsBefore_cons.2 before
  obtain ⟨rest', last, read⟩ := items_run before' shown rfl
  obtain ⟨close', rfl, closes'⟩ : ∃ w, rest' = w :: rest ∧ w.token = .mark .parenR := by
    rcases rest' with _ | ⟨w, tail⟩
    · cases last
    · simp only [unflag, List.cons.injEq, Word.mk.injEq] at last
      obtain ⟨⟨token, -⟩, rfl⟩ := last
      exact ⟨w, rfl, token.trans closes⟩
  refine node_run.2 ⟨by simp, leafAt (.mark .parenL) (wordsOf items ++ close :: rest).length.succ ::
    itemsDrafts (rest.length + 1) items ++ [leafAt (.mark .parenR) (rest.length + 1)], ?_, ?_⟩
  · refine run_bind_eq_some.2 ⟨_, _, mark_run.2 ⟨opening, _, rfl, opens, rfl, rfl⟩, ?_⟩
    refine run_bind_eq_some.2 ⟨_, _, read, ?_⟩
    refine run_bind_eq_some.2 ⟨_, _, mark_run.2 ⟨close', rest, rfl, closes', rfl, rfl⟩, ?_⟩
    exact run_pure_eq_some.2 ⟨rfl, rfl⟩
  · have number : (wordsOf items ++ close :: rest).length + 1 =
        rest.length + (wordsOf items).length + 2 := by
      simp only [List.length_append, List.length_cons]
      omega
    simp only [DeclWords.listDraft, length_signs, List.length_cons, Nat.succ_eq_add_one, number]

theorem specList_inv {ws : List Word} {d : Draft} {c : Cursor}
    (read : specList.run (signs ws) = some (d, c)) :
    ∃ (opening : Word) (items : List Item) (close : Word) (rest : List Word),
      ws = opening :: (wordsOf items ++ close :: rest) ∧ opening.token = .mark .parenL ∧
      ItemsBefore [close] items ∧ close.token = .mark .parenR ∧ c = signs rest := by
  obtain ⟨-, ds, read, -⟩ := node_run.1 read
  obtain ⟨first, middle, read_open, read⟩ := run_bind_eq_some.1 read
  obtain ⟨opening, tail, rfl, opens, rfl, rfl⟩ := mark_run.1 read_open
  obtain ⟨inner, middle, read_items, read⟩ := run_bind_eq_some.1 read
  obtain ⟨items, behind, behind', rfl, before, -, rfl, last, rfl⟩ := items_inv read_items rfl
  obtain ⟨closing, middle, read_close, read⟩ := run_bind_eq_some.1 read
  obtain ⟨close', rest, rfl, closes, rfl, rfl⟩ := mark_run.1 read_close
  obtain ⟨-, rfl⟩ := run_pure_eq_some.1 read
  rcases behind with _ | ⟨close, rest'⟩
  · cases last
  · simp only [unflag, List.cons.injEq, Word.mk.injEq] at last
    obtain ⟨⟨token, -⟩, rfl⟩ := last
    exact ⟨opening, items, close, rest, rfl, opens, itemsBefore_cons.1 before,
      token ▸ closes, rfl⟩

/-- The children of an import declaration. -/
def declChildren : Reading (List Draft) := do
  let head ← keyword .importWord
  if ← atMark false .parenL then return [head, ← specList]
  return [head, ← importSpec]

theorem declChildren_run {decl : DeclWords} (valid : decl.Valid) (rest : List Word) :
    declChildren.run (signs (decl.words ++ rest)) =
      some (decl.children rest.length, signs rest) := by
  cases decl with
  | single key spec =>
    obtain ⟨keyed, valid⟩ := valid
    refine run_bind_eq_some.2
      ⟨_, _, keyword_run.2 ⟨key, spec.words ++ rest, rfl, keyed, rfl, rfl⟩, ?_⟩
    rw [atMark_bind_run, seen_words valid _ (by decide)]
    refine run_bind_eq_some.2 ⟨_, _, importSpec_run.2 ⟨spec, rest, valid, rfl, rfl, rfl⟩, ?_⟩
    refine run_pure_eq_some.2 ⟨?_, rfl⟩
    have number : (spec.words ++ rest).length + 1 =
        rest.length + (DeclWords.words (.single key spec)).length := by
      simp only [DeclWords.words, List.length_append, List.length_cons]
      omega
    rw [number]
    rfl
  | block key opening items close =>
    obtain ⟨keyed, opens, before, closes⟩ := valid
    have split : (DeclWords.block key opening items close).words ++ rest =
        key :: opening :: (wordsOf items ++ close :: rest) := by
      simp [DeclWords.words]
    rw [split]
    refine run_bind_eq_some.2 ⟨_, _, keyword_run.2 ⟨key, _, rfl, keyed, rfl, rfl⟩, ?_⟩
    rw [atMark_bind_run, seen_cons, opens]
    refine run_bind_eq_some.2 ⟨_, _, specList_run opens before closes rest, ?_⟩
    refine run_pure_eq_some.2 ⟨?_, rfl⟩
    have number : (opening :: (wordsOf items ++ close :: rest)).length + 1 =
        rest.length + (DeclWords.block key opening items close).words.length := by
      simp only [DeclWords.words, List.length_append, List.length_cons, List.length_nil]
      omega
    rw [number]
    rfl

theorem declChildren_inv {ws : List Word} {ds : List Draft} {c : Cursor}
    (read : declChildren.run (signs ws) = some (ds, c)) :
    ∃ (decl : DeclWords) (rest : List Word), decl.Valid ∧ ws = decl.words ++ rest ∧
      c = signs rest := by
  obtain ⟨head, middle, read_key, read⟩ := run_bind_eq_some.1 read
  obtain ⟨key, tail, rfl, keyed, rfl, rfl⟩ := keyword_run.1 read_key
  rw [atMark_bind_run] at read
  split at read
  · obtain ⟨list, middle, read_list, read⟩ := run_bind_eq_some.1 read
    obtain ⟨opening, items, close, rest, rfl, opens, before, closes, rfl⟩ := specList_inv read_list
    obtain ⟨-, rfl⟩ := run_pure_eq_some.1 read
    refine ⟨.block key opening items close, rest, ⟨keyed, opens, before, closes⟩, ?_, rfl⟩
    simp [DeclWords.words]
  · obtain ⟨d, middle, read_spec, read⟩ := run_bind_eq_some.1 read
    obtain ⟨spec, rest, valid, rfl, -, rfl⟩ := importSpec_run.1 read_spec
    obtain ⟨-, rfl⟩ := run_pure_eq_some.1 read
    exact ⟨.single key spec, rest, ⟨keyed, valid⟩, rfl, rfl⟩

/-- An import declaration is read off exactly its words. -/
theorem importDeclaration_run {ws : List Word} {d : Draft} {c : Cursor} :
    importDeclaration.run (signs ws) = some (d, c) ↔
      ∃ (decl : DeclWords) (rest : List Word), decl.Valid ∧ ws = decl.words ++ rest ∧
        d = decl.draft rest.length ∧ c = signs rest := by
  have unfolded : importDeclaration = node .importDeclaration declChildren := rfl
  have sized (decl : DeclWords) (rest : List Word) :
      decl.draft rest.length = .node .importDeclaration none (decl.words ++ rest).length
        ((signs rest).length + 1) (decl.children rest.length) := by
    rw [DeclWords.draft, List.length_append, Nat.add_comm, length_signs]
  rw [unfolded, node_run]
  constructor
  · rintro ⟨nonempty, ds, read, rfl⟩
    obtain ⟨decl, rest, valid, rfl, rfl⟩ := declChildren_inv read
    rw [declChildren_run valid] at read
    cases read
    exact ⟨decl, rest, valid, rfl, (sized decl rest).symm, rfl⟩
  · rintro ⟨decl, rest, valid, rfl, rfl, rfl⟩
    exact ⟨by simp [decl.words_ne_nil], _, declChildren_run valid rest, sized decl rest⟩

end Marginalia.Go.Grammar
