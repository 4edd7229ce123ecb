/-
Module: Marginalia.Proofs.Go.SourceFile
Purpose: The header of a source file: its package clause and import declarations, and the rest.
Main exports:
  TopItem, topKinds, Header, sourceFile_run, sourceFile_inv, exists_body
-/
import Marginalia.Proofs.Go.ImportDecl

namespace Marginalia.Go.Grammar

/-! ### Package clauses -/

/-- The tree of a package clause with `k` words behind it. -/
def clauseDraft (k : Nat) : Draft :=
  .node .packageClause none (k + 2) (k + 1)
    [leafAt (.keyword .packageWord) (k + 2), leafAt .packageIdentifier (k + 1)]

theorem packageClause_run {ws : List Word} {d : Draft} {c : Cursor} :
    packageClause.run (signs ws) = some (d, c) ↔
      ∃ key name rest, ws = key :: name :: rest ∧ key.token = .word (some .packageWord) ∧
        isNameToken name.token ∧ d = clauseDraft rest.length ∧ c = signs rest := by
  have unfolded : packageClause = node .packageClause (keyword .packageWord >>= fun head =>
      word .packageIdentifier >>= fun name => pure [head, name]) := rfl
  rw [unfolded, node_run]
  constructor
  · rintro ⟨-, ds, read, rfl⟩
    obtain ⟨head, middle, read_key, read⟩ := run_bind_eq_some.1 read
    obtain ⟨key, tail, rfl, keyed, rfl, rfl⟩ := keyword_run.1 read_key
    obtain ⟨id, middle, read_name, read⟩ := run_bind_eq_some.1 read
    obtain ⟨name, rest, rfl, named, rfl, rfl⟩ := word_run.1 read_name
    obtain ⟨rfl, rfl⟩ := run_pure_eq_some.1 read
    exact ⟨key, name, rest, rfl, keyed, named, by simp [clauseDraft], rfl⟩
  · rintro ⟨key, name, rest, rfl, keyed, named, rfl, rfl⟩
    refine ⟨by simp, [leafAt (.keyword .packageWord) (rest.length + 2),
      leafAt .packageIdentifier (rest.length + 1)], ?_, by simp [clauseDraft]⟩
    refine run_bind_eq_some.2 ⟨_, _, keyword_run.2 ⟨key, name :: rest, rfl, keyed, rfl, rfl⟩, ?_⟩
    refine run_bind_eq_some.2 ⟨_, _, word_run.2 ⟨name, rest, rfl, named, rfl, rfl⟩, ?_⟩
    exact run_pure_eq_some.2 ⟨rfl, rfl⟩

/-! ### Kinds of top-level nodes -/

/-- Whether nodes of a kind declare or state something, unlike comments and marks. -/
def isContent : Kind → Bool
  | .comment => false
  | .mark _ => false
  | _ => true

/-- A kind of node that no header has. -/
def isBody (kind : Kind) : Bool :=
  isContent kind && kind != .packageClause && kind != .importDeclaration

theorem node_inv {kind : Kind} {children : Reading (List Draft)} {c c' : Cursor} {d : Draft}
    (read : (node kind children).run c = some (d, c')) : d.kind = kind ∧ d.start = c.length := by
  cases c with
  | nil => cases read
  | cons s rest =>
    have unfolded : (node kind children).run (s :: rest) =
        (children >>= fun ds => lastNumber >>= fun last =>
          pure (.node kind none (rest.length + 1) last ds)).run (s :: rest) := rfl
    rw [unfolded] at read
    obtain ⟨ds, middle, -, read⟩ := run_bind_eq_some.1 read
    obtain ⟨last, middle', -, read⟩ := run_bind_eq_some.1 read
    obtain ⟨rfl, -⟩ := run_pure_eq_some.1 read
    exact ⟨rfl, rfl⟩

theorem run_orElse_eq_some {α : Type} {x y : Reading α} {c c' : Cursor} {a : α}
    (read : (x <|> y).run c = some (a, c')) : x.run c = some (a, c') ∨ y.run c = some (a, c') := by
  have unfolded : (x <|> y).run c = (x.run c <|> y.run c) := rfl
  rw [unfolded] at read
  cases first : x.run c with
  | none =>
    rw [first] at read
    exact .inr read
  | some result =>
    rw [first] at read
    exact .inl read

/-- No statement is read as a part of a header. -/
theorem statementRule_inv {phrases : Phrases} {place : Place} {c c' : Cursor} {d : Draft}
    (read : (statementRule phrases place).run c = some (d, c')) :
    isBody d.kind ∧ d.start = c.length := by
  obtain ⟨next, middle, peeked, read⟩ := run_bind_eq_some.1 read
  obtain rfl : c = middle := by
    cases c <;> cases peeked <;> rfl
  have here {kind : Kind} {children : Reading (List Draft)} (body : isBody kind)
      (read : (node kind children).run c = some (d, c')) :
      isBody d.kind ∧ d.start = c.length := by
    obtain ⟨rfl, start⟩ := node_inv read
    exact ⟨body, start⟩
  split at read
  · exact here rfl read
  · exact here rfl read
  · split at read
    all_goals first
      | exact here rfl read
      | (split at read
         · exact (run_failure_eq_some.1 read).elim
         · exact here rfl read)
  · exact here rfl read

/-- What starts with neither of the words of a header is no part of one. -/
theorem topLevel_inv {depth : Nat} {ws : List Word} {c : Cursor} {d : Draft}
    (read : (topLevel (readPhrase depth)).run (signs ws) = some (d, c)) :
    (seen false ws = some (.word (some .packageWord)) ∧
        packageClause.run (signs ws) = some (d, c)) ∨
      (seen false ws = some (.word (some .importWord)) ∧
        importDeclaration.run (signs ws) = some (d, c)) ∨ isBody d.kind ∧ d.start = ws.length := by
  rw [← length_signs ws]
  have statement (read : (readPhrase depth (.statement .top)).run (signs ws) = some (d, c)) :
      isBody d.kind ∧ d.start = (signs ws).length := by
    cases depth with
    | zero => exact (run_failure_eq_some.1 read).elim
    | succ depth => exact statementRule_inv read
  rw [topLevel, peek_bind_run] at read
  split at read
  · rename_i known
    exact .inl ⟨known, read⟩
  · rename_i known
    exact .inr (.inl ⟨known, read⟩)
  · rcases run_orElse_eq_some read with func | read
    · obtain ⟨kind, start⟩ := node_inv func
      exact .inr (.inr ⟨by rw [kind]; rfl, start⟩)
    · rcases run_orElse_eq_some read with method | read
      · obtain ⟨kind, start⟩ := node_inv method
        exact .inr (.inr ⟨by rw [kind]; rfl, start⟩)
      · exact .inr (.inr (statement read))
  · exact .inr (.inr (statement read))

/-! ### Items of a file -/

/-- An item of a file is ended by a separator or by the end of the file. -/
def EndedBefore (sep : Option Word) (rest : List Word) : Prop :=
  Separates sep rest ∨ sep = none ∧ rest = []

/-- What follows the tree of an item. -/
def itemTail (t : Draft) : Reading (Option (List Draft)) := do
  match ← terminator? with
  | some ts => return some (t :: ts)
  | none => if (← peek true).isNone then return some [t] else failure

/-- The reader of one item of a file. -/
def fileItem : Reading (Option (List Draft)) := do
  match ← peek false with
  | none => return none
  | some _ => topLevel (readPhrase (4 * (← get).length + 16)) >>= itemTail

theorem declarations_eq : declarations = repeatWhile fileItem := rfl

theorem fileItem_cons (w : Word) (ws : List Word) :
    fileItem.run (signs (w :: ws)) =
      (topLevel (readPhrase (4 * (w :: ws).length + 16)) >>= itemTail).run (signs (w :: ws)) := by
  rw [← length_signs (w :: ws)]
  rfl

theorem fileItem_nil : fileItem.run (signs []) = some (none, []) := rfl

theorem itemTail_run {t : Draft} {sep : Option Word} {rest : List Word}
    (ended : EndedBefore sep rest) :
    (itemTail t).run (signs (sep.toList ++ rest)) =
      some (some (t :: separatorDrafts sep rest.length), signs (unflag rest)) := by
  rcases ended with separates | ⟨rfl, rfl⟩
  · exact run_bind_eq_some.2 ⟨_, _, terminator?_run separates, rfl⟩
  · rfl

theorem itemTail_inv {t : Draft} {behind : List Word} {r : Option (List Draft)} {c : Cursor}
    (read : (itemTail t).run (signs behind) = some (r, c)) :
    ∃ sep rest, behind = sep.toList ++ rest ∧ EndedBefore sep rest := by
  obtain ⟨ended, last, read_end, read⟩ := run_bind_eq_some.1 read
  rcases terminator?_cases behind with ⟨sep, rest, rfl, separates⟩ | unterminated
  · exact ⟨sep, rest, rfl, .inl separates⟩
  · rw [unterminated] at read_end
    cases read_end
    dsimp only at read
    rw [peek_bind_run] at read
    split at read
    · rename_i last
      cases behind with
      | nil => exact ⟨none, [], rfl, .inr ⟨rfl, rfl⟩⟩
      | cons w rest => cases last
    · exact (run_failure_eq_some.1 read).elim

theorem itemTail_head {t : Draft} {c c' : Cursor} {r : Option (List Draft)}
    (read : (itemTail t).run c = some (r, c')) : ∃ ts, r = some (t :: ts) := by
  obtain ⟨ended, last, -, read⟩ := run_bind_eq_some.1 read
  split at read
  · obtain ⟨rfl, -⟩ := run_pure_eq_some.1 read
    exact ⟨_, rfl⟩
  · obtain ⟨next, last', -, read⟩ := run_bind_eq_some.1 read
    split at read
    · obtain ⟨rfl, -⟩ := run_pure_eq_some.1 read
      exact ⟨_, rfl⟩
    · exact (run_failure_eq_some.1 read).elim

/-! ### Import declarations in a file -/

/-- An import declaration with the word that ends it, if there is one. -/
structure TopItem where
  decl : DeclWords
  sep : Option Word

namespace TopItem

/-- The words of an item. -/
def words (i : TopItem) : List Word := i.decl.words ++ i.sep.toList

/-- The trees of an item with `k` words behind it. -/
def drafts (i : TopItem) (k : Nat) : List Draft :=
  i.decl.draft (i.sep.toList.length + k) :: separatorDrafts i.sep k

/-- An item is well formed and ended, with `rest` behind it. -/
def Before (rest : List Word) (i : TopItem) : Prop :=
  i.decl.Valid ∧ EndedBefore i.sep rest

end TopItem

/-- Whether a newline stands before its first word makes no difference to a declaration. -/
theorem DeclWords.exists_of_unflag {ws tail : List Word} {decl : DeclWords}
    (same : unflag ws = unflag (decl.words ++ tail)) :
    ∃ decl' : DeclWords, ws = decl'.words ++ tail ∧ (decl'.Valid ↔ decl.Valid) ∧
      ∀ k, decl'.draft k = decl.draft k := by
  rcases ws with _ | ⟨w, rest⟩
  · cases decl <;> cases same
  · cases decl with
    | single key spec =>
      simp only [words, List.cons_append, unflag, List.cons.injEq, Word.mk.injEq, true_and] at same
      obtain ⟨⟨token, -⟩, rfl⟩ := same
      exact ⟨.single w spec, rfl, by simp [Valid, token], fun k => rfl⟩
    | block key opening items close =>
      simp only [words, List.cons_append, unflag, List.cons.injEq, Word.mk.injEq, true_and] at same
      obtain ⟨⟨token, -⟩, rfl⟩ := same
      exact ⟨.block w opening items close, rfl, by simp [Valid, token], fun k => rfl⟩

theorem seen_importWord {decl : DeclWords} (valid : decl.Valid) (rest : List Word) :
    seen false (decl.words ++ rest) = some (.word (some .importWord)) := by
  cases decl with
  | single key spec =>
    rw [DeclWords.words, List.cons_append, seen_cons, valid.1]
  | block key opening items close =>
    rw [DeclWords.words, List.cons_append, seen_cons, valid.1]

/-- An import declaration is read off a file where no newline counts. -/
theorem fileItem_run {i : TopItem} {rest : List Word} (before : i.Before rest) :
    fileItem.run (signs (unflag (i.words ++ rest))) =
      some (some (i.drafts rest.length), signs (unflag rest)) := by
  obtain ⟨decl, sep⟩ := i
  obtain ⟨valid, ended⟩ := before
  rw [TopItem.words, List.append_assoc]
  generalize text : unflag (decl.words ++ (sep.toList ++ rest)) = ws
  have same : unflag ws = unflag (decl.words ++ (sep.toList ++ rest)) := by
    rw [← text, unflag_unflag]
  obtain ⟨decl', rfl, iff, made⟩ := DeclWords.exists_of_unflag same
  obtain ⟨w, tail, cons⟩ := List.exists_cons_of_ne_nil
    (List.append_ne_nil_of_left_ne_nil decl'.words_ne_nil (sep.toList ++ rest))
  have read : (topLevel (readPhrase (4 * (w :: tail).length + 16))).run (signs (w :: tail)) =
      some (decl'.draft (sep.toList ++ rest).length, signs (sep.toList ++ rest)) := by
    rw [← cons, topLevel, peek_bind_run, seen_importWord (iff.2 valid)]
    exact importDeclaration_run.2 ⟨decl', _, iff.2 valid, rfl, rfl, rfl⟩
  rw [cons, fileItem_cons]
  refine run_bind_eq_some.2 ⟨_, _, read, ?_⟩
  rw [itemTail_run ended, made, List.length_append]
  rfl

/-- The words of import declarations. -/
def topWords (items : List TopItem) : List Word := items.flatMap TopItem.words

/-- The trees of import declarations with `k` words behind them. -/
def topDrafts (k : Nat) : List TopItem → List Draft
  | [] => []
  | i :: items => i.drafts ((topWords items).length + k) ++ topDrafts k items

/-- Every declaration is well formed and ended, with `rest` behind the last one. -/
def TopBefore (rest : List Word) : List TopItem → Prop
  | [] => True
  | i :: items => i.Before (topWords items ++ rest) ∧ TopBefore rest items

theorem TopItem.words_ne_nil (i : TopItem) : i.words ≠ [] :=
  List.append_ne_nil_of_left_ne_nil i.decl.words_ne_nil _

theorem declarations_run {items : List TopItem} {rest : List Word} {ds : List Draft}
    (before : TopBefore rest items)
    (read : declarations.run (signs (unflag rest)) = some (ds, [])) :
    declarations.run (signs (unflag (topWords items ++ rest))) =
      some (topDrafts rest.length items ++ ds, []) := by
  induction items with
  | nil => exact read
  | cons i items ih =>
    have split : topWords (i :: items) ++ rest = i.words ++ (topWords items ++ rest) := by
      simp [topWords]
    rw [split, declarations_eq]
    refine repeatWhile_run.2 (.inr ⟨_, _, _, fileItem_run before.1, ?_, ih before.2, ?_⟩)
    · have := List.length_pos_of_ne_nil i.words_ne_nil
      simp only [length_signs, length_unflag, List.length_append]
      omega
    · rw [topDrafts, List.append_assoc, List.length_append]

theorem EndedBefore.change {sep : Option Word} {rest rest' : List Word}
    (ended : EndedBefore sep rest)
    (next : rest'.head? = rest.head? ∨ seen true rest' = some .newline) :
    EndedBefore sep rest' := by
  rcases ended with separates | ⟨rfl, rfl⟩
  · cases sep with
    | some w => exact .inl separates
    | none =>
      refine .inl ?_
      rcases next with same | newline
      · have broken : seen true rest = some .newline := separates
        rw [seen, ← same] at broken
        exact broken
      · exact newline
  · rcases next with same | newline
    · exact .inr ⟨rfl, List.head?_eq_none_iff.1 same⟩
    · exact .inl newline

theorem head?_topWords_append (i : TopItem) (items : List TopItem) (rest : List Word) :
    (topWords (i :: items) ++ rest).head? = i.decl.words.head? := by
  obtain ⟨w, ws, nonempty⟩ := List.exists_cons_of_ne_nil i.decl.words_ne_nil
  simp [topWords, TopItem.words, nonempty]

/-- What follows declarations matters only where the last of them ends without a separator. -/
theorem TopBefore.change {rest rest' : List Word} {items : List TopItem}
    (before : TopBefore rest items)
    (next : rest'.head? = rest.head? ∨ seen true rest' = some .newline) :
    TopBefore rest' items := by
  induction items with
  | nil => trivial
  | cons i items ih =>
    refine ⟨⟨before.1.1, before.1.2.change ?_⟩, ih before.2⟩
    cases items with
    | nil => exact next
    | cons j items =>
      rw [head?_topWords_append, head?_topWords_append]
      exact .inl rfl

theorem topBefore_append {rest : List Word} {first second : List TopItem} :
    TopBefore rest (first ++ second) ↔
      TopBefore (topWords second ++ rest) first ∧ TopBefore rest second := by
  induction first with
  | nil => simp [TopBefore]
  | cons i first ih =>
    have words : topWords (first ++ second) = topWords first ++ topWords second := by
      simp [topWords]
    rw [List.cons_append, TopBefore, TopBefore, ih, words, List.append_assoc, and_assoc]

/-- The kinds of nodes, comments and marks apart. -/
def topKinds {P : Type} (ts : List (Node P)) : List Kind :=
  (ts.map Node.kind).filter isContent

theorem topKinds_append {P : Type} (ts us : List (Node P)) :
    topKinds (ts ++ us) = topKinds ts ++ topKinds us := by
  simp [topKinds]

theorem topKinds_separatorDrafts (sep : Option Word) (k : Nat) :
    topKinds (separatorDrafts sep k) = [] := by
  unfold separatorDrafts
  split <;> rfl

theorem topKinds_cons {P : Type} {t : Node P} (content : isContent t.kind) (ts : List (Node P)) :
    topKinds (t :: ts) = t.kind :: topKinds ts := by
  simp [topKinds, content]

/-- An item of a file is an import declaration, a package clause, or no part of a header. -/
theorem fileItem_cases {ws : List Word} {ts : List Draft} {c : Cursor}
    (read : fileItem.run (signs (unflag ws)) = some (some ts, c)) :
    (∃ (i : TopItem) (rest : List Word), ws = i.words ++ rest ∧ i.Before rest ∧
        ts = i.drafts rest.length ∧ c = signs (unflag rest)) ∨
      (∃ key name sep rest, ws = key :: name :: (sep.toList ++ rest) ∧
        key.token = .word (some .packageWord) ∧ isNameToken name.token ∧ EndedBefore sep rest ∧
        ts = clauseDraft (sep.toList.length + rest.length) :: separatorDrafts sep rest.length ∧
        c = signs (unflag rest)) ∨
      ∃ t ts', ts = t :: ts' ∧ isBody t.kind ∧ t.start = ws.length := by
  have long : ws.length = (unflag ws).length := (length_unflag ws).symm
  rw [long]
  generalize text : unflag ws = bare at read
  rcases bare with _ | ⟨w, tail⟩
  · rw [fileItem_nil] at read
    cases read
  rw [fileItem_cons] at read
  obtain ⟨t, middle, top, read⟩ := run_bind_eq_some.1 read
  obtain ⟨ts', head⟩ := itemTail_head read
  cases head
  rcases topLevel_inv top with ⟨-, clause⟩ | ⟨-, imports⟩ | body
  · obtain ⟨key, name, behind, same, keyed, named, rfl, rfl⟩ := packageClause_run.1 clause
    obtain ⟨sep, rest, rfl, ended⟩ := itemTail_inv read
    rw [itemTail_run ended] at read
    cases read
    rcases ws with _ | ⟨key', tail'⟩
    · cases text
    · rw [same] at text
      simp only [unflag, List.cons.injEq] at text
      obtain ⟨rfl, rfl⟩ := text
      refine .inr (.inl ⟨key', name, sep, rest, rfl, keyed, named, ended, ?_, rfl⟩)
      rw [List.length_append]
  · obtain ⟨decl, behind, valid, same, rfl, rfl⟩ := importDeclaration_run.1 imports
    obtain ⟨sep, rest, rfl, ended⟩ := itemTail_inv read
    rw [itemTail_run ended] at read
    cases read
    have unflagged : unflag ws = unflag (decl.words ++ (sep.toList ++ rest)) := by
      rw [← same, ← text, unflag_unflag]
    obtain ⟨decl', rfl, iff, made⟩ := DeclWords.exists_of_unflag unflagged
    refine .inl ⟨⟨decl', sep⟩, rest, ?_, ⟨iff.2 valid, ended⟩, ?_, rfl⟩
    · rw [TopItem.words, List.append_assoc]
    · rw [TopItem.drafts, made, List.length_append]
  · exact .inr (.inr ⟨t, ts', rfl, body⟩)

theorem isContent_of_isBody {kind : Kind} (body : isBody kind) :
    isContent kind ∧ kind ≠ .packageClause ∧ kind ≠ .importDeclaration := by
  simpa [isBody, and_assoc] using body

theorem topKinds_top (i : TopItem) (k : Nat) (ds : List Draft) :
    topKinds (i.drafts k ++ ds) = .importDeclaration :: topKinds ds := by
  rw [TopItem.drafts, List.cons_append, topKinds_cons rfl, topKinds_append,
    topKinds_separatorDrafts]
  rfl

theorem topKinds_clause (k : Nat) (sep : Option Word) (k' : Nat) (ds : List Draft) :
    topKinds (clauseDraft k :: separatorDrafts sep k' ++ ds) = .packageClause :: topKinds ds := by
  rw [List.cons_append, topKinds_cons rfl, topKinds_append, topKinds_separatorDrafts]
  rfl

/-- Where import declarations come first, they are read off their words. -/
theorem declarations_inv {n : Nat} {ws : List Word} {drafts : List Draft} {others : List Kind}
    (read : declarations.run (signs (unflag ws)) = some (drafts, []))
    (kinds : topKinds drafts = List.replicate n .importDeclaration ++ others) :
    ∃ (items : List TopItem) (rest : List Word) (ds : List Draft), ws = topWords items ++ rest ∧
      TopBefore rest items ∧ drafts = topDrafts rest.length items ++ ds ∧
      declarations.run (signs (unflag rest)) = some (ds, []) ∧ topKinds ds = others := by
  induction n generalizing ws drafts with
  | zero => exact ⟨[], ws, drafts, rfl, trivial, rfl, read, kinds⟩
  | succ n ih =>
    rw [declarations_eq] at read
    rcases repeatWhile_run.1 read with ⟨-, rfl⟩ | ⟨ts, middle, us, item, -, later, rfl⟩
    · cases kinds
    rcases fileItem_cases item with ⟨i, tail, rfl, before, rfl, rfl⟩ |
      ⟨key, name, sep, tail, rfl, -, -, -, rfl, rfl⟩ | ⟨t, ts', rfl, body, -⟩
    · rw [topKinds_top, List.replicate_succ, List.cons_append, List.cons.injEq] at kinds
      obtain ⟨items, rest, ds, rfl, all, rfl, last, others_eq⟩ := ih later kinds.2
      refine ⟨i :: items, rest, ds, ?_, ⟨before, all⟩, ?_, last, others_eq⟩
      · simp [topWords]
      · rw [topDrafts, List.append_assoc, List.length_append]
    · rw [topKinds_clause] at kinds
      cases kinds
    · obtain ⟨content, -, apart⟩ := isContent_of_isBody body
      rw [List.cons_append, topKinds_cons content, List.replicate_succ, List.cons_append,
        List.cons.injEq] at kinds
      exact absurd kinds.1 apart

/-- Where neither a package clause nor an import declaration is read, the first node is a part of no
header, and it starts at the first word. -/
theorem exists_body {ws : List Word} {ds : List Draft}
    (read : declarations.run (signs (unflag ws)) = some (ds, []))
    (clauseless : Kind.packageClause ∉ topKinds ds)
    (importless : Kind.importDeclaration ∉ topKinds ds) (nonempty : ws ≠ []) :
    ∃ d ∈ ds, isBody d.kind ∧ d.start = ws.length := by
  rw [declarations_eq] at read
  rcases repeatWhile_run.1 read with ⟨stopped, -⟩ | ⟨ts, middle, us, first, -, -, rfl⟩
  · obtain ⟨w, rest, rfl⟩ := List.exists_cons_of_ne_nil nonempty
    rw [unflag, fileItem_cons] at stopped
    obtain ⟨t, middle, -, tail⟩ := run_bind_eq_some.1 stopped
    obtain ⟨ts, wrong⟩ := itemTail_head tail
    cases wrong
  · rcases fileItem_cases first with ⟨i, rest, -, -, rfl, -⟩ |
      ⟨key, name, sep, rest, -, -, -, -, rfl, -⟩ | ⟨t, ts', rfl, body, start⟩
    · rw [topKinds_top] at importless
      exact absurd List.mem_cons_self importless
    · rw [topKinds_clause] at clauseless
      exact absurd List.mem_cons_self clauseless
    · exact ⟨t, by simp, body, start⟩

/-! ### Headers -/

/-- The words of a source file: a package clause, import declarations, and the rest. -/
structure Header where
  key : Word
  name : Word
  sep : Option Word
  items : List TopItem
  rest : List Word

namespace Header

/-- What follows the package clause. -/
def behind (h : Header) : List Word := topWords h.items ++ h.rest

/-- The words in order. -/
def words (h : Header) : List Word := h.key :: h.name :: (h.sep.toList ++ h.behind)

/-- The words are of the right kinds, and the declarations are separated. -/
structure Valid (h : Header) : Prop where
  keyed : h.key.token = .word (some .packageWord)
  named : isNameToken h.name.token
  ended : EndedBefore h.sep h.behind
  items : TopBefore h.rest h.items

/-- The trees of the package clause and the import declarations. -/
def drafts (h : Header) : List Draft :=
  clauseDraft (h.sep.toList.length + h.behind.length) ::
    separatorDrafts h.sep h.behind.length ++ topDrafts h.rest.length h.items

end Header

theorem sourceFile_eq (ws : List Word) :
    sourceFile.run (signs ws) = declarations.run (signs (unflag ws)) := by
  rw [sourceFile, StateT.run_bind, passNewline_run]
  rfl

/-- A source file is read off its header and the rest. -/
theorem sourceFile_run {h : Header} (valid : h.Valid) {ds : List Draft}
    (read : declarations.run (signs (unflag h.rest)) = some (ds, [])) {ws : List Word}
    (same : unflag ws = unflag h.words) :
    sourceFile.run (signs ws) = some (h.drafts ++ ds, []) := by
  rw [sourceFile_eq, same, declarations_eq]
  have bare : unflag h.words =
      { h.key with afterNewline := false } :: h.name :: (h.sep.toList ++ h.behind) := rfl
  have clause := packageClause_run.2
    ⟨{ h.key with afterNewline := false }, h.name, h.sep.toList ++ h.behind, rfl, valid.keyed,
      valid.named, rfl, rfl⟩
  have first : fileItem.run (signs (unflag h.words)) =
      some (some (clauseDraft (h.sep.toList ++ h.behind).length ::
        separatorDrafts h.sep h.behind.length), signs (unflag h.behind)) := by
    rw [bare, fileItem_cons]
    refine run_bind_eq_some.2 ⟨_, _, ?_, itemTail_run valid.ended⟩
    rw [topLevel, peek_bind_run, seen_cons, valid.keyed]
    exact clause
  refine repeatWhile_run.2 (.inr ⟨_, _, _, first, ?_, declarations_run valid.items read, ?_⟩)
  · simp only [length_signs, length_unflag, Header.words, List.length_append, List.length_cons]
    omega
  · rw [Header.drafts, List.append_assoc, List.length_append]

/-- A source file whose package clause and import declarations come first has a header. -/
theorem sourceFile_inv {n : Nat} {ws : List Word} {drafts : List Draft} {others : List Kind}
    (read : sourceFile.run (signs ws) = some (drafts, []))
    (kinds : topKinds drafts =
      .packageClause :: (List.replicate n .importDeclaration ++ others)) :
    ∃ (h : Header) (ds : List Draft), ws = h.words ∧ h.Valid ∧ drafts = h.drafts ++ ds ∧
      declarations.run (signs (unflag h.rest)) = some (ds, []) ∧ topKinds ds = others := by
  rw [sourceFile_eq, declarations_eq] at read
  rcases repeatWhile_run.1 read with ⟨-, rfl⟩ | ⟨ts, middle, us, first, -, later, rfl⟩
  · cases kinds
  rcases fileItem_cases first with ⟨i, tail, rfl, before, rfl, rfl⟩ |
    ⟨key, name, sep, tail, rfl, keyed, named, ended, rfl, rfl⟩ | ⟨t, ts', rfl, body, -⟩
  · rw [topKinds_top] at kinds
    cases kinds
  · rw [topKinds_clause, List.cons.injEq] at kinds
    obtain ⟨items, rest, ds, rfl, all, rfl, last, others_eq⟩ := declarations_inv later kinds.2
    refine ⟨⟨key, name, sep, items, rest⟩, ds, rfl, ⟨keyed, named, ended, all⟩, ?_, last, others_eq⟩
    rw [Header.drafts, List.append_assoc]
    rfl
  · obtain ⟨content, apart, -⟩ := isContent_of_isBody body
    rw [List.cons_append, topKinds_cons content, List.cons.injEq] at kinds
    exact absurd kinds.1 apart

end Marginalia.Go.Grammar
