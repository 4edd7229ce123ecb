/-
Module: Marginalia.Proofs.Go.Parse
Purpose: The syntax tree of a text, by the segments and words of the text.
Main exports:
  treeOf, Tree.headerFirst, Parsed, exists_parsed, Parsed.parse?_eq_some, Parsed.exists_unit
-/
import Marginalia.Proofs.Go.Declared
import Marginalia.Proofs.Go.Span
import Mathlib.Data.List.TakeWhile

namespace Marginalia.Go

open Grammar

/-! ### Places of words -/

/-- The lexeme of the word with a number, counted from the end. -/
def wordLexeme? (segments : List Segment) (number : Nat) : Option Lexeme :=
  Lexeme.numbered? ((Lexeme.solid false (placed ⟨0, 0⟩ segments)).map (·.1)) number

/-- Where the word with a number starts. -/
def startOf (segments : List Segment) (number : Nat) : Point :=
  ((wordLexeme? segments number).map (·.start)).getD ⟨0, 0⟩

/-- Where the word with a number stops. -/
def stopOf (segments : List Segment) (number : Nat) : Point :=
  ((wordLexeme? segments number).map (·.stop)).getD ⟨0, 0⟩

/-- A word stands at a segment of its own, with the words before it in front of that. -/
structure WordAt (segments : List Segment) (before : List Word) (w : Word) (after : List Word)
    (pre : List Segment) (s : Segment) (post : List Segment) : Prop where
  whole : segments = pre ++ s :: post
  first : words false pre = before
  here : s.word? = some w.token
  text : s.text = w.text
  broken : lineBroken false pre = w.afterNewline
  later : words false post = after
  start : startOf segments (after.length + 1) = Point.after ⟨0, 0⟩ (textOf pre)
  stop : stopOf segments (after.length + 1) = Point.after ⟨0, 0⟩ (textOf pre ++ s.text)

theorem exists_wordAt {segments : List Segment} {before after : List Word} {w : Word}
    (split : words false segments = before ++ w :: after) :
    ∃ pre s post, WordAt segments before w after pre s post := by
  obtain ⟨pre, s, post, rfl, first, here, text, broken, later⟩ := exists_segment_of_words split
  have found := numbered?_solid pre post here
  rw [later] at found
  refine ⟨pre, s, post, rfl, first, here, text, broken, later, ?_, ?_⟩
  · rw [startOf, wordLexeme?, found]
    rfl
  · rw [stopOf, wordLexeme?, found]
    rfl

/-- The text at the place of a word is the text of the word. -/
theorem reads_words (segments : List Segment) :
    Reads (startOf segments) (stopOf segments) (String.ofList (textOf segments))
      (words false segments) := by
  intro before w after split
  obtain ⟨pre, s, post, place⟩ := exists_wordAt split
  rw [readAt, place.start, place.stop, Point.offset_after, Point.offset_after, Utf8.size_append,
    place.whole, ← place.text]
  have cut : (Span.mk (Utf8.size (textOf pre)) (Utf8.size (textOf pre) + Utf8.size s.text)).slice?
      (textOf pre ++ (s.text ++ textOf post)) = some s.text :=
    Span.slice?_eq_some_iff.2 ⟨_, _, rfl, rfl, rfl⟩
  simp only [Span.text, String.toList_ofList, textOf_append, textOf_cons, Nat.zero_add, cut,
    Option.getD_some]

/-! ### Trees -/

/-- The tree of a text with certain segments, from drafts. -/
def treeOf (segments : List Segment) (drafts : List Draft) : Tree :=
  Tree.attach ((placed ⟨0, 0⟩ segments).filter fun l => l.token == .comment)
    (.node .sourceFile none ⟨0, 0⟩
      (((placed ⟨0, 0⟩ segments).getLast?.map (·.stop)).getD ⟨0, 0⟩)
      (Node.locateAll (startOf segments) (stopOf segments) drafts))

theorem all_placed_iff (p : Point) (segments : List Segment) :
    ((placed p segments).all fun l => l.token != .stray) = true ↔
      ∀ s ∈ segments, s.token ≠ some .stray := by
  induction segments generalizing p with
  | nil => simp [placed]
  | cons s segments ih =>
    obtain ⟨_ | token, text⟩ := s
    · simp [placed, ih]
    · rw [placed, List.all_cons, Bool.and_eq_true, ih, List.forall_mem_cons, bne_iff_ne]
      simp

theorem parse?_eq {segments : List Segment} (scanned : Scanned segments) {tree : Tree} :
    Tree.parse? (textOf segments) = some tree ↔
      (∀ s ∈ segments, s.token ≠ some .stray) ∧
        ∃ drafts, sourceFile.run (signs (words false segments)) = some (drafts, []) ∧
          tree = treeOf segments drafts := by
  have unfolded : Tree.parse? (textOf segments) =
      (guard ((placed ⟨0, 0⟩ segments).all fun l => l.token != .stray) : Option Unit).bind fun _ =>
        (sourceFile.run (signs (words false segments))).bind fun result =>
          if result.2.isEmpty then some (treeOf segments result.1) else none := by
    have run : signs (words false segments) = _ := (signs_solid false ⟨0, 0⟩ segments).symm
    have starts : startOf segments = fun number => ((Lexeme.numbered?
        ((Lexeme.solid false (Lexeme.scan (textOf segments))).map (·.1)) number).map
          (·.start)).getD ⟨0, 0⟩ := by
      rw [scanned.scan_eq]
      rfl
    have stops : stopOf segments = fun number => ((Lexeme.numbered?
        ((Lexeme.solid false (Lexeme.scan (textOf segments))).map (·.1)) number).map
          (·.stop)).getD ⟨0, 0⟩ := by
      rw [scanned.scan_eq]
      rfl
    simp only [run, treeOf, starts, stops, ← scanned.scan_eq]
    rfl
  rw [unfolded, ← all_placed_iff ⟨0, 0⟩]
  constructor
  · intro parsed
    obtain ⟨⟨⟩, guarded, parsed⟩ := Option.bind_eq_some_iff.1 parsed
    obtain ⟨⟨drafts, rest⟩, read, parsed⟩ := Option.bind_eq_some_iff.1 parsed
    have real : ((placed ⟨0, 0⟩ segments).all fun l => l.token != .stray) = true := by
      by_contra wrong
      rw [guard, if_neg wrong] at guarded
      cases guarded
    split at parsed
    · rename_i last
      obtain rfl : rest = [] := List.isEmpty_iff.1 last
      exact ⟨real, drafts, read, (Option.some.inj parsed).symm⟩
    · cases parsed
  · rintro ⟨real, drafts, read, rfl⟩
    rw [read]
    simp [guard, real]

/-! ### Headers -/

/-- A file as the language has it: a package clause, then imports, then everything else. -/
def Tree.headerFirst (t : Tree) : Bool :=
  match topKinds t.children with
  | .packageClause :: kinds =>
    (kinds.dropWhile (· == .importDeclaration)).all fun kind =>
      kind != .packageClause && kind != .importDeclaration
  | _ => false

theorem Tree.exists_kinds {t : Tree} (headed : t.headerFirst) :
    ∃ n others, topKinds t.children =
        .packageClause :: (List.replicate n .importDeclaration ++ others) ∧
      .packageClause ∉ others ∧ .importDeclaration ∉ others := by
  unfold Tree.headerFirst at headed
  split at headed
  · rename_i kinds same
    rw [List.all_eq_true] at headed
    refine ⟨(kinds.takeWhile (· == .importDeclaration)).length,
      kinds.dropWhile (· == .importDeclaration), ?_, fun member => ?_, fun member => ?_⟩
    · have imports : kinds.takeWhile (· == .importDeclaration) =
          List.replicate (kinds.takeWhile (· == .importDeclaration)).length .importDeclaration :=
        List.eq_replicate_of_mem fun kind member => by
          simpa using List.mem_takeWhile_imp member
      rw [same, ← imports, List.takeWhile_append_dropWhile]
    · exact absurd (headed _ member) (by decide)
    · exact absurd (headed _ member) (by decide)
  · cases headed

theorem topKinds_eq {P : Type} (ts : List (Node P)) :
    topKinds ts = (ts.filter fun t => isContent t.kind).map Node.kind := by
  rw [topKinds, List.filter_map]
  rfl

theorem topKinds_weave (comments : List Lexeme) (ts : List Tree) :
    topKinds (Tree.weave comments ts) = topKinds ts := by
  rw [topKinds_eq, topKinds_eq]
  refine Tree.map_filter_weave ⟨fun l => rfl, fun comments t => ?_⟩ (fun comments t => ?_) _ _
  · rw [Tree.kind_attach]
  · exact Tree.kind_attach _ t

theorem topKinds_treeOf (segments : List Segment) (drafts : List Draft) :
    topKinds (treeOf segments drafts).children = topKinds drafts := by
  rw [treeOf, Tree.children_attach, topKinds_weave, Node.children, Node.locateAll_eq_map, topKinds,
    List.map_map]
  congr 2
  funext t
  exact Node.kind_locate _ _ t

/-- A draft that is no comment becomes a node of the tree. -/
theorem exists_child (segments : List Segment) {drafts : List Draft} {d : Draft}
    (member : d ∈ drafts) (content : isContent d.kind) :
    ∃ t ∈ (treeOf segments drafts).children,
      t.kind = d.kind ∧ t.start = startOf segments d.start := by
  have listed : (d.kind, startOf segments d.start) ∈
      (((drafts.map (Node.locate (startOf segments) (stopOf segments))).filter
        fun t => isContent t.kind).map fun t => (t.kind, t.start)) := by
    refine List.mem_map.2 ⟨Node.locate (startOf segments) (stopOf segments) d, ?_, ?_⟩
    · rw [List.mem_filter, Node.kind_locate]
      exact ⟨List.mem_map_of_mem member, content⟩
    · cases d
      rfl
  have same := Tree.map_filter_weave (p := fun t => isContent t.kind)
    (f := fun t => (t.kind, t.start))
    ⟨fun l => rfl, fun comments t => by rw [Tree.kind_attach]⟩
    (fun comments t => Prod.ext (Tree.kind_attach _ t) (Tree.start_attach _ t))
    ((placed ⟨0, 0⟩ segments).filter fun l => l.token == .comment)
    (drafts.map (Node.locate (startOf segments) (stopOf segments)))
  rw [← same] at listed
  obtain ⟨t, inside, here⟩ := List.mem_map.1 listed
  obtain ⟨kind, start⟩ := Prod.mk.inj here
  refine ⟨t, ?_, kind, start⟩
  rw [treeOf, Tree.children_attach, Node.children, Node.locateAll_eq_map]
  exact (List.mem_filter.1 inside).1

/-- The segments of a text, its header, and the trees of what follows the header. -/
structure Parsed (segments : List Segment) (h : Header) (ds : List Draft) : Prop where
  scanned : Scanned segments
  real : ∀ s ∈ segments, s.token ≠ some .stray
  words : unflag (words false segments) = unflag h.words
  valid : h.Valid
  rest : declarations.run (Grammar.signs (unflag h.rest)) = some (ds, [])
  clauseless : Kind.packageClause ∉ topKinds ds
  importless : Kind.importDeclaration ∉ topKinds ds

/-- A text with the tree of a file falls into a header and the rest. -/
theorem exists_parsed {text : List Char} {tree : Tree} (parsed : Tree.parse? text = some tree)
    (headed : tree.headerFirst) :
    ∃ segments h ds, textOf segments = text ∧ Parsed segments h ds ∧
      words false segments = h.words ∧ tree = treeOf segments (h.drafts ++ ds) := by
  obtain ⟨segments, rfl, scanned⟩ := exists_scanned text
  obtain ⟨real, drafts, read, rfl⟩ := (parse?_eq scanned).1 parsed
  obtain ⟨n, others, kinds, clauseless, importless⟩ := Tree.exists_kinds headed
  rw [topKinds_treeOf] at kinds
  obtain ⟨h, ds, same, valid, rfl, rest, rfl⟩ := sourceFile_inv read kinds
  exact ⟨segments, h, ds, rfl,
    ⟨scanned, real, by rw [same], valid, rest, clauseless, importless⟩, same, rfl⟩

/-- Whether a newline stands before the first word makes no difference to what is read. -/
theorem Grammar.Reads.of_unflag {start stop : Nat → Point} {source : String} {ws ws' : List Word}
    (reads : Reads start stop source ws) (same : unflag ws = unflag ws') :
    Reads start stop source ws' := by
  rintro before w after rfl
  rcases before with _ | ⟨b, before⟩
  · rcases ws with _ | ⟨v, rest⟩
    · cases same
    · simp only [unflag, List.nil_append, List.cons.injEq, Word.mk.injEq, true_and] at same
      obtain ⟨⟨-, text⟩, rfl⟩ := same
      rw [← text]
      exact reads [] v rest rfl
  · rcases ws with _ | ⟨v, rest⟩
    · cases same
    · simp only [unflag, List.cons_append, List.cons.injEq] at same
      obtain ⟨-, rfl⟩ := same
      exact reads (v :: before) w after rfl

namespace Parsed

variable {segments : List Segment} {h : Header} {ds : List Draft}

/-- A text that falls into a header and the rest has the tree of a file. -/
theorem parse?_eq_some (parsed : Parsed segments h ds) :
    Tree.parse? (textOf segments) = some (treeOf segments (h.drafts ++ ds)) :=
  (parse?_eq parsed.scanned).2
    ⟨parsed.real, _, sourceFile_run parsed.valid parsed.rest parsed.words, rfl⟩

/-- What is read off such a text: its imports are those that the words of the header declare. -/
theorem exists_unit (parsed : Parsed segments h ds) (path : Path) :
    ∃ unit, SourceUnit.parse path (String.ofList (textOf segments)) = .ok unit ∧
      unit.path = path ∧ unit.source = String.ofList (textOf segments) ∧
      unit.imports = h.specs.map SpecWords.toImport ∧
      unit.packageSpan.stop =
        (stopOf segments (h.sep.toList.length + h.behind.length + 1)).offset ∧
      unit.importDecls = (declDrafts h.rest.length h.items).map fun d =>
        importDecl (String.ofList (textOf segments))
          (Node.locate (startOf segments) (stopOf segments) (d.1.draft d.2)) := by
  obtain ⟨unit, built, here, source, package, imports, decls⟩ :=
    h.ofTree_eq_ok path (String.ofList (textOf segments)) (startOf segments) (stopOf segments)
      ((placed ⟨0, 0⟩ segments).filter fun l => l.token == .comment)
      parsed.clauseless parsed.importless
  refine ⟨unit, ?_, here, source, ?_, package, decls⟩
  · rw [SourceUnit.parse, String.toList_ofList, parsed.parse?_eq_some]
    exact built
  · have reads : Reads (startOf segments) (stopOf segments) (String.ofList (textOf segments))
        h.behind :=
      Reads.suffix (h.key :: h.name :: h.sep.toList) ((reads_words segments).of_unflag parsed.words)
    rw [imports, flatMap_importsOf reads]
    rfl

end Parsed

end Marginalia.Go
