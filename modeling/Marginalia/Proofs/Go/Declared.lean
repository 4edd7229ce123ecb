/-
Module: Marginalia.Proofs.Go.Declared
Purpose: The imports that the words of a header declare, and where they are declared.
Main exports:
  SpecWords.toImport, Header.specs, declDrafts, Header.ofTree_eq_ok, exists_item_of_mem,
  flatMap_importsOf
-/
import Marginalia.Proofs.Go.Unit

namespace Marginalia.Go.Grammar

/-! ### The specs of a header -/

/-- The import that a spec declares. -/
def SpecWords.toImport (s : SpecWords) : Import :=
  ⟨s.name.map fun w => String.ofList w.text, unquote (String.ofList s.path.text)⟩

/-- The specs of a declaration. -/
def DeclWords.specs : DeclWords → List SpecWords
  | .single _ spec => [spec]
  | .block _ _ items _ => items.map Item.spec

/-- The specs of a header. -/
def Header.specs (h : Header) : List SpecWords :=
  h.items.flatMap fun i => i.decl.specs

/-- The trees of the specs of items with `k` words behind them. -/
def specDrafts (k : Nat) : List Item → List Draft
  | [] => []
  | i :: items =>
    i.spec.draft (i.sep.toList.length + ((wordsOf items).length + k)) :: specDrafts k items

/-- The trees of the specs of a declaration with `k` words behind it. -/
def DeclWords.specDrafts (k : Nat) : DeclWords → List Draft
  | .single _ spec => [spec.draft k]
  | .block _ _ items _ => Grammar.specDrafts (k + 1) items

/-- The trees of import declarations with `k` words behind them, each with its words. -/
def declDrafts (k : Nat) : List TopItem → List (DeclWords × Nat)
  | [] => []
  | i :: items =>
    (i.decl, i.sep.toList.length + ((topWords items).length + k)) :: declDrafts k items

theorem filter_separatorDrafts {kind : Kind} (other : ∀ m, kind ≠ .mark m) (sep : Option Word)
    (k : Nat) : (separatorDrafts sep k).filter (·.kind == kind) = [] := by
  unfold separatorDrafts
  split
  · simpa [leafAt, Node.kind] using (other _).symm
  · rfl

theorem filter_itemsDrafts (k : Nat) (items : List Item) :
    (itemsDrafts k items).filter (·.kind == .importSpec) = specDrafts k items := by
  induction items with
  | nil => rfl
  | cons i items ih =>
    rw [itemsDrafts, List.filter_append, ih, Item.drafts, List.filter_cons_of_pos (by rfl),
      filter_separatorDrafts (by simp)]
    rfl

theorem filter_topDrafts (k : Nat) (items : List TopItem) :
    (topDrafts k items).filter (·.kind == .importDeclaration) =
      (declDrafts k items).map fun (decl, k) => decl.draft k := by
  induction items with
  | nil => rfl
  | cons i items ih =>
    rw [topDrafts, List.filter_append, ih, TopItem.drafts, List.filter_cons_of_pos (by rfl),
      filter_separatorDrafts (by simp)]
    rfl

/-- Whether a newline stands before the first of them makes no difference to the items of a
block. -/
theorem exists_items_of_unflag {ws back : List Word} {items : List Item} {close : Word}
    (same : unflag ws = unflag (wordsOf items ++ close :: back)) :
    ∃ items' close', ws = wordsOf items' ++ close' :: back ∧ close'.token = close.token ∧
      (ItemsBefore [close] items → ItemsBefore [close'] items') ∧
      items'.map (fun i => i.spec.toImport) = items.map (fun i => i.spec.toImport) := by
  cases items with
  | nil =>
    rcases ws with _ | ⟨w, ws⟩
    · cases same
    · simp only [wordsOf, List.flatMap_nil, List.nil_append, unflag, List.cons.injEq,
        Word.mk.injEq] at same
      obtain ⟨⟨token, -, -⟩, rfl⟩ := same
      exact ⟨[], w, rfl, token, fun _ => trivial, rfl⟩
  | cons i items =>
    have split : wordsOf (i :: items) ++ close :: back =
        i.words ++ (wordsOf items ++ close :: back) := by
      simp [wordsOf]
    rw [split] at same
    obtain ⟨i', rfl, iff, -, name, path⟩ := Item.exists_of_unflag same
    refine ⟨i' :: items, close, by simp [wordsOf], rfl,
      fun before => ⟨(iff _).2 before.1, before.2⟩, ?_⟩
    have names := congrArg (Option.map String.ofList) name
    simp only [Option.map_map, Function.comp_def] at names
    rw [List.map_cons, List.map_cons, SpecWords.toImport, SpecWords.toImport, path, names]

/-! ### Located trees -/

section Located

variable (start stop : Nat → Point)

theorem span_locate (t : Draft) :
    (Node.locate start stop t).span = ⟨(start t.start).offset, (stop t.stop).offset⟩ := by
  cases t
  rfl

theorem filter_locate (kind : Kind) (ts : List Draft) :
    (ts.map (Node.locate start stop)).filter (·.kind == kind) =
      (ts.filter (·.kind == kind)).map (Node.locate start stop) := by
  rw [List.filter_map]
  congr 2
  funext t
  rw [Function.comp_apply, Node.kind_locate]

theorem find?_locate (p : Tree → Bool) (q : Draft → Bool)
    (same : ∀ t, p (Node.locate start stop t) = q t) (ts : List Draft) :
    (ts.map (Node.locate start stop)).find? p = (ts.find? q).map (Node.locate start stop) := by
  rw [List.find?_map]
  congr 2
  funext t
  exact same t

theorem childOfKind?_locate (kind : Kind) (t : Draft) :
    (Node.locate start stop t).childOfKind? kind =
      (t.childOfKind? kind).map (Node.locate start stop) := by
  unfold Node.childOfKind?
  rw [Node.children_locate]
  exact find?_locate start stop _ _ (fun t => by rw [Node.kind_locate]) _

theorem childInRole?_locate (role : Role) (t : Draft) :
    (Node.locate start stop t).childInRole? role =
      (t.childInRole? role).map (Node.locate start stop) := by
  unfold Node.childInRole?
  rw [Node.children_locate]
  exact find?_locate start stop _ _ (fun t => by rw [Node.role_locate]) _

/-- The specs of a located declaration are the located specs. -/
theorem importSpecs_locate (decl : DeclWords) (k : Nat) :
    importSpecs (Node.locate start stop (decl.draft k)) =
      (decl.specDrafts k).map (Node.locate start stop) := by
  unfold importSpecs
  rw [childOfKind?_locate]
  cases decl with
  | single key spec =>
    have listless :
        (DeclWords.draft (.single key spec) k).childOfKind? .importSpecList = none := rfl
    simp only [listless, Option.map_none, Option.getD_none, Node.children_locate, filter_locate]
    rfl
  | block key opening items close =>
    have list : (DeclWords.draft (.block key opening items close) k).childOfKind? .importSpecList =
        some (DeclWords.listDraft items k) := rfl
    have inner : (DeclWords.listDraft items k).children.filter (·.kind == .importSpec) =
        specDrafts (k + 1) items := by
      rw [DeclWords.listDraft, Node.children, List.cons_append,
        List.filter_cons_of_neg (by simp [leafAt, Node.kind]), List.filter_append,
        filter_itemsDrafts]
      exact List.append_nil _
    simp only [list, Option.map_some, Option.getD_some, Node.children_locate, filter_locate, inner]
    rfl

/-- The text of the word with a number. -/
def readAt (source : String) (number : Nat) : String :=
  Span.text ⟨(start number).offset, (stop number).offset⟩ source

theorem specPath_locate (source : String) (s : SpecWords) (k : Nat) :
    specPath source (Node.locate start stop (s.draft k)) =
      unquote (readAt start stop source (k + 1)) := by
  unfold specPath
  rw [childInRole?_locate]
  obtain ⟨_ | name, path⟩ := s <;> rfl

theorem specName_locate (source : String) (s : SpecWords) (k : Nat) :
    ((Node.locate start stop (s.draft k)).childInRole? .name).map (Node.text source) =
      s.name.map fun _ => readAt start stop source (k + 2) := by
  rw [childInRole?_locate]
  obtain ⟨_ | name, path⟩ := s <;> rfl

/-- Every word is read at its number. -/
def Reads (source : String) (ws : List Word) : Prop :=
  ∀ before w after, ws = before ++ w :: after →
    readAt start stop source (after.length + 1) = String.ofList w.text

variable {start stop} {source : String}

theorem Reads.suffix (before : List Word) {ws : List Word}
    (reads : Reads start stop source (before ++ ws)) : Reads start stop source ws := by
  rintro first w after rfl
  exact reads (before ++ first) w after (by simp)

/-- The import of a spec whose words are read. -/
theorem importOf_locate {s : SpecWords} {rest : List Word}
    (reads : Reads start stop source (s.words ++ rest)) :
    (⟨((Node.locate start stop (s.draft rest.length)).childInRole? .name).map (Node.text source),
      specPath source (Node.locate start stop (s.draft rest.length))⟩ : Import) = s.toImport := by
  rw [specName_locate, specPath_locate]
  obtain ⟨name, path⟩ := s
  have last := reads name.toList path rest (by simp [SpecWords.words])
  cases name with
  | none => simp [SpecWords.toImport, last]
  | some w =>
    have first := reads [] w (path :: rest) rfl
    rw [List.length_cons] at first
    simp [SpecWords.toImport, last, first]

theorem map_specDrafts {items : List Item} {rest : List Word}
    (reads : Reads start stop source (wordsOf items ++ rest)) :
    (specDrafts rest.length items).map (fun d =>
        (⟨((Node.locate start stop d).childInRole? .name).map (Node.text source),
          specPath source (Node.locate start stop d)⟩ : Import)) =
      items.map fun i => i.spec.toImport := by
  induction items with
  | nil => rfl
  | cons i items ih =>
    have split : wordsOf (i :: items) ++ rest =
        i.spec.words ++ (i.sep.toList ++ (wordsOf items ++ rest)) := by
      simp [wordsOf, Item.words]
    rw [split] at reads
    have here := importOf_locate reads
    simp only [List.length_append] at here
    rw [specDrafts, List.map_cons, List.map_cons, here, ih ((reads.suffix _).suffix _)]

/-- The imports of a declaration whose words are read. -/
theorem importsOf_locate {decl : DeclWords} {rest : List Word}
    (reads : Reads start stop source (decl.words ++ rest)) :
    importsOf source (Node.locate start stop (decl.draft rest.length)) =
      decl.specs.map SpecWords.toImport := by
  unfold importsOf
  rw [importSpecs_locate, List.map_map]
  cases decl with
  | single key spec =>
    have inner : Reads start stop source (spec.words ++ rest) :=
      Reads.suffix [key] reads
    exact congrArg (· :: []) (importOf_locate inner)
  | block key opening items close =>
    have inner : Reads start stop source (wordsOf items ++ close :: rest) := by
      refine Reads.suffix [key, opening] ?_
      simpa [DeclWords.words] using reads
    have specs := map_specDrafts inner
    rw [List.length_cons] at specs
    simpa [DeclWords.specs, DeclWords.specDrafts, Function.comp_def] using specs

theorem close_single (key : Word) (spec : SpecWords) (k : Nat) :
    (importDecl source (Node.locate start stop (DeclWords.draft (.single key spec) k))).close =
      none := by
  have listless : (DeclWords.draft (.single key spec) k).childOfKind? .importSpecList = none := rfl
  simp [importDecl, childOfKind?_locate, listless]

/-- No item of a block has a closing parenthesis. -/
theorem find?_itemsDrafts {rest : List Word} {items : List Item} (before : ItemsBefore rest items)
    (k : Nat) : (itemsDrafts k items).find? (·.kind == .mark .parenR) = none := by
  induction items with
  | nil => rfl
  | cons i items ih =>
    have unclosed (k : Nat) : (separatorDrafts i.sep k).find? (·.kind == .mark .parenR) = none := by
      rcases before.1.2 with separates | ⟨absent, -⟩
      · cases sep : i.sep with
        | none => rfl
        | some w =>
          rw [sep] at separates
          obtain ⟨token, newline, text⟩ := w
          rcases (isTerminator_iff.1 separates).2 with rfl | rfl <;> rfl
      · rw [absent]
        rfl
    rw [itemsDrafts, List.find?_append, ih before.2, Item.drafts,
      List.find?_cons_of_neg (by rintro ⟨⟩), unclosed]
    rfl

theorem close_block {key opening close : Word} {items : List Item}
    (before : ItemsBefore [close] items) (k : Nat) :
    (importDecl source
      (Node.locate start stop (DeclWords.draft (.block key opening items close) k))).close =
      some (start (k + 1)).offset := by
  have list : (DeclWords.draft (.block key opening items close) k).childOfKind? .importSpecList =
      some (DeclWords.listDraft items k) := rfl
  have paren : (DeclWords.listDraft items k).childOfKind? (.mark .parenR) =
      some (leafAt (.mark .parenR) (k + 1)) := by
    rw [Node.childOfKind?, DeclWords.listDraft, Node.children, List.cons_append,
      List.find?_cons_of_neg (by rintro ⟨⟩), List.find?_append, find?_itemsDrafts before]
    rfl
  simp only [importDecl, childOfKind?_locate, list, Option.map_some, Option.bind_eq_bind,
    Option.bind_some, paren]
  rfl

theorem exists_item_of_specDrafts {k : Nat} {items : List Item} {d : Draft}
    (member : d ∈ specDrafts k items) :
    ∃ before i after, items = before ++ i :: after ∧
      d.start = (wordsOf (i :: after)).length + k := by
  induction items with
  | nil => cases member
  | cons i items ih =>
    rcases List.mem_cons.1 member with rfl | later
    · refine ⟨[], i, items, rfl, ?_⟩
      simp only [SpecWords.draft, Node.start, wordsOf, Item.words, List.flatMap_cons,
        List.length_append]
      omega
    · obtain ⟨before, j, after, rfl, same⟩ := ih later
      exact ⟨i :: before, j, after, rfl, same⟩

/-- A spec of a block starts where one of its items starts. -/
theorem exists_item_of_mem {key opening close : Word} {items : List Item} {k : Nat}
    {x : Span × String}
    (member : x ∈ (importDecl source
      (Node.locate start stop (DeclWords.draft (.block key opening items close) k))).specs) :
    ∃ before i after, items = before ++ i :: after ∧
      x.1.start = (start ((wordsOf (i :: after)).length + (k + 1))).offset := by
  unfold importDecl at member
  rw [importSpecs_locate, List.map_map] at member
  obtain ⟨d, inside, rfl⟩ := List.mem_map.1 member
  obtain ⟨before, i, after, split, same⟩ := exists_item_of_specDrafts inside
  refine ⟨before, i, after, split, ?_⟩
  rw [← same]
  exact congrArg Span.start (span_locate start stop d)

/-! ### The unit of a header -/

theorem filter_of_topKinds {ds : List Draft} {kind : Kind} (content : isContent kind)
    (absent : kind ∉ topKinds ds) : ds.filter (·.kind == kind) = [] := by
  rw [List.filter_eq_nil_iff]
  intro d member same
  rw [beq_iff_eq] at same
  refine absent (List.mem_filter.2 ⟨?_, content⟩)
  rw [← same]
  exact List.mem_map_of_mem member

theorem filter_clause_topDrafts (k : Nat) (items : List TopItem) :
    (topDrafts k items).filter (·.kind == .packageClause) = [] := by
  induction items with
  | nil => rfl
  | cons i items ih =>
    rw [topDrafts, List.filter_append, ih, TopItem.drafts, List.filter_cons_of_neg (by rintro ⟨⟩),
      filter_separatorDrafts (by simp)]
    rfl

/-- What is read off the trees of a header and other nodes. -/
theorem Header.ofTree_eq_ok (h : Header) {ds : List Draft} (path : Path) (source : String)
    (start stop : Nat → Point) (comments : List Lexeme) {first last : Point}
    (clauseless : Kind.packageClause ∉ topKinds ds)
    (importless : Kind.importDeclaration ∉ topKinds ds) :
    ∃ unit, SourceUnit.ofTree path source (Tree.attach comments (.node .sourceFile none first last
        (Node.locateAll start stop (h.drafts ++ ds)))) = .ok unit ∧
      unit.path = path ∧ unit.source = source ∧
      unit.packageSpan.stop = (stop (h.sep.toList.length + h.behind.length + 1)).offset ∧
      unit.imports = (declDrafts h.rest.length h.items).flatMap (fun d =>
        importsOf source (Node.locate start stop (d.1.draft d.2))) ∧
      unit.importDecls = (declDrafts h.rest.length h.items).map fun d =>
        importDecl source (Node.locate start stop (d.1.draft d.2)) := by
  have clauses : (h.drafts ++ ds).filter (·.kind == .packageClause) =
      [clauseDraft (h.sep.toList.length + h.behind.length)] := by
    rw [List.filter_append, filter_of_topKinds rfl clauseless, Header.drafts, List.cons_append,
      List.filter_cons_of_pos (by rfl), List.filter_append, filter_separatorDrafts (by simp),
      filter_clause_topDrafts]
    rfl
  have imported : (h.drafts ++ ds).filter (·.kind == .importDeclaration) =
      (declDrafts h.rest.length h.items).map fun (decl, k) => decl.draft k := by
    rw [List.filter_append, filter_of_topKinds rfl importless, Header.drafts, List.cons_append,
      List.filter_cons_of_neg (by rintro ⟨⟩), List.filter_append, filter_separatorDrafts (by simp),
      filter_topDrafts, List.append_nil, List.nil_append]
  have clause : (((Node.locateAll start stop (h.drafts ++ ds)).filter
      (·.kind == .packageClause)).getLast?.bind (·.childOfKind? .packageIdentifier)) =
      some (Node.locate start stop
        (leafAt .packageIdentifier (h.sep.toList.length + h.behind.length + 1))) := by
    rw [Node.locateAll_eq_map, filter_locate, clauses]
    simp only [List.map_cons, List.map_nil, List.getLast?_singleton, Option.bind_some,
      childOfKind?_locate]
    rfl
  obtain ⟨unit, built, here, text, package, imports, decls⟩ :=
    SourceUnit.ofTree_attach path source comments first last clause
  refine ⟨unit, built, here, text, by rw [package]; rfl, ?_, ?_⟩
  · rw [imports, Node.locateAll_eq_map, filter_locate, imported, List.flatMap_map, List.flatMap_map]
  · rw [decls, Node.locateAll_eq_map, filter_locate, imported, List.map_map, List.map_map]
    rfl

theorem flatMap_importsOf {items : List TopItem} {rest : List Word}
    (reads : Reads start stop source (topWords items ++ rest)) :
    (declDrafts rest.length items).flatMap (fun d =>
        importsOf source (Node.locate start stop (d.1.draft d.2))) =
      (items.flatMap fun i => i.decl.specs).map SpecWords.toImport := by
  induction items with
  | nil => rfl
  | cons i items ih =>
    have split : topWords (i :: items) ++ rest =
        i.decl.words ++ (i.sep.toList ++ (topWords items ++ rest)) := by
      simp [topWords, TopItem.words]
    rw [split] at reads
    have here := importsOf_locate reads
    simp only [List.length_append] at here
    rw [declDrafts, List.flatMap_cons, List.flatMap_cons, List.map_append, here,
      ih ((reads.suffix _).suffix _)]

end Located
end Marginalia.Go.Grammar
