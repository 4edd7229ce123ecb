/-
Module: Marginalia.Proofs.Edit.NewBlock
Purpose: A new import declaration that is written behind the declarations of a file.
Main exports:
  newBlock, blockSegments, words_block, insert_lines, exists_line_end, Extends, extends_of_place,
  extends_after_clause, extends_after_imports
-/
import Marginalia.Proofs.Edit.Growth
import Marginalia.Proofs.Go.ImportOrder
import Marginalia.Proofs.Go.Parse

namespace Marginalia.Edit

open Go Go.Lexeme
open Go.Grammar (DeclWords Draft EndedBefore Header Item ItemsBefore TopBefore TopItem seen
  topWords wordsOf)

/-! ### The text of a declaration -/

/-- The segments of a new import declaration, on lines of their own. -/
def blockSegments (imports : List Import) : List Segment :=
  ⟨some .newline, ['\n']⟩ :: ⟨some .newline, ['\n']⟩ ::
    ⟨some (.word (some .importWord)), "import".toList⟩ :: ⟨none, [' ']⟩ ::
    ⟨some (.mark .parenL), ['(']⟩ :: ⟨some .newline, ['\n']⟩ ::
    (linedSegments imports ++ [⟨some (.mark .parenR), [')']⟩])

/-- The words of a new import declaration. -/
def newBlock (imports : List Import) : DeclWords :=
  .block ⟨.word (some .importWord), true, "import".toList⟩ ⟨.mark .parenL, false, ['(']⟩
    (linedItems imports) ⟨.mark .parenR, true, [')']⟩

theorem toList_foldl_render (imports : List Import) (text : String) :
    (imports.foldl (fun acc i => acc ++ "\t" ++ i.render ++ "\n") text).toList =
      text.toList ++ imports.flatMap fun i => '\t' :: (i.render.toList ++ ['\n']) := by
  induction imports generalizing text with
  | nil => simp
  | cons i imports ih => simp [ih]

theorem textOf_block {imports : Imports} (nonempty : imports ≠ []) :
    textOf (blockSegments imports.inOrder) = ("\n\n" ++ imports.render).toList := by
  have filled : imports.isEmpty = false := by simpa using nonempty
  rw [Imports.render, filled, String.toList_append]
  simp only [Bool.false_eq_true, if_false, String.toList_append, toList_foldl_render]
  simp [blockSegments, textOf_lined]

theorem lexedBefore_block {imports : List Import} (writable : ∀ i ∈ imports, i.Writable)
    (rest : List Char) : LexedBefore rest (blockSegments imports) := by
  refine ⟨rfl, rfl, ?_, ⟨rfl, at?_space (by decide) _⟩, at?_single (by decide) _, rfl, ?_⟩
  · exact @at?_word 'i' "mport".toList _ (by decide) (by decide)
  · exact lexedBefore_append.2 ⟨lexedBefore_lined writable _, at?_single (by decide) _, trivial⟩

theorem real_block (imports : List Import) :
    ∀ s ∈ blockSegments imports, s.token ≠ some .stray := by
  have lined := real_lined imports
  simp only [blockSegments, List.forall_mem_cons, List.forall_mem_append]
  simpa using lined

theorem words_block (newline : Bool) (imports : List Import) (rest : List Segment) :
    words newline (blockSegments imports ++ rest) =
      (newBlock imports).words ++ words false rest := by
  have opened : words newline (blockSegments imports ++ rest) =
      ⟨.word (some .importWord), true, "import".toList⟩ :: ⟨.mark .parenL, false, ['(']⟩ ::
        words true (linedSegments imports ++ (⟨some (.mark .parenR), [')']⟩ :: rest)) := by
    simp [blockSegments, words, Segment.word?, Segment.isNewline]
  have closed : words true (⟨some (.mark .parenR), [')']⟩ :: rest) =
      ⟨.mark .parenR, true, [')']⟩ :: words false rest := rfl
  rw [opened, words_lined, closed]
  simp [newBlock, DeclWords.words]

theorem valid_newBlock (imports : List Import) : (newBlock imports).Valid :=
  ⟨rfl, rfl, itemsBefore_lined imports rfl, rfl⟩

theorem specs_newBlock {imports : List Import} (writable : ∀ i ∈ imports, i.Writable) :
    (newBlock imports).specs.map Grammar.SpecWords.toImport = imports := by
  have items := toImport_lined writable
  rwa [newBlock, DeclWords.specs, List.map_map]

/-! ### Putting it into a text -/

theorem bounded_newline (s : Segment) (rest : List Char) : s.Bounded ('\n' :: rest) := by
  refine ⟨fun k _ c head => ?_, fun _ _ c head => ?_, fun _ => ⟨fun c head => ?_, ?_⟩⟩
  · cases head
    decide
  · cases head
    rfl
  · cases head
    decide
  · simp

/-- Lines can be put behind the words of a header. -/
theorem insert_lines {pre post new : List Segment} (scanned : Scanned (pre ++ post))
    (header : ∀ w ∈ words false pre, isHeaderToken w.token) (worded : words false pre ≠ [])
    (last : ∀ w ∈ (words false pre).getLast?, w.token ≠ .mark .dot)
    (lexed : LexedBefore (textOf post) new) (lines : (textOf new).head? = some '\n') :
    Scanned (pre ++ (new ++ post)) := by
  have behind : LexedBefore [] (new ++ post) := by
    rw [lexedBefore_append, List.append_nil]
    refine ⟨lexed, scanned.tail ?_⟩
    rintro rfl
    exact worded rfl
  refine scanned.change (calm_of_words header) behind worded fun s final => ⟨?_, fun dot => ?_⟩
  · obtain ⟨rest, text⟩ := List.head?_eq_some_iff.1 lines
    rw [textOf_append, text]
    exact bounded_newline s _
  · obtain ⟨front, rfl⟩ := List.getLast?_eq_some_iff.1 final
    have word : s.word? = some (.mark .dot) := by rw [Segment.word?, dot]
    obtain ⟨w, here, token⟩ :=
      Option.map_eq_some_iff.1 (word?_of_words front word false)
    exact last w here token

theorem splice_insertAt (before behind : List Char) (text : String) :
    splice (Utf8.encode (before ++ behind)) [insertAt (Utf8.size before) text] =
      .ok (Utf8.encode (before ++ (text.toList ++ behind))) := by
  have inside : Utf8.size before ≤ (Utf8.encode (before ++ behind)).length := by
    rw [Utf8.length_encode, Utf8.size_append]
    exact Nat.le_add_right ..
  have inserted := spliceFrom_insert (Utf8.ofString text) inside
    (rfl : spliceFrom (Utf8.encode (before ++ behind)).length (Utf8.size before)
      (Utf8.encode behind) [] = .ok (Utf8.encode behind))
  have size : Utf8.size before = 0 + (Utf8.encode before).length := by
    rw [Utf8.length_encode, Nat.zero_add]
  rw [size] at inserted
  have skipped := spliceFrom_skip (by simp) inserted
  simpa [splice, insertAt, size, Utf8.encode_append, Utf8.ofString] using skipped

/-! ### Files that declare more -/

/-- By replacements a file becomes one with the same declarations behind its header, and with a
header that declares further imports. -/
def Extends (segments : List Segment) (h : Header) (ds : List Draft) (rs : List Replacement)
    (added : Imports) : Prop :=
  ∃ segments' h', Parsed segments' h' ds ∧
    splice (Utf8.encode (textOf segments)) rs = .ok (Utf8.encode (textOf segments')) ∧
    (h'.specs.map Grammar.SpecWords.toImport).Perm
      (h.specs.map Grammar.SpecWords.toImport ++ added)

theorem perm_inOrder {imports : Imports} (nodup : imports.Nodup) :
    imports.inOrder.Perm imports := by
  rw [List.perm_ext_iff_of_nodup (Imports.nodup_inOrder imports) nodup]
  exact fun i => Imports.mem_inOrder

/-- A new declaration can be put at a place in a header, if that makes a header. -/
theorem extends_of_place {segments pre post : List Segment} {h : Header} {ds : List Draft}
    (h' : Header) (parsed : Parsed segments h ds) (whole : segments = pre ++ post)
    (header : ∀ w ∈ words false pre, isHeaderToken w.token) (first : words false pre ≠ [])
    (last : ∀ w ∈ (words false pre).getLast?, w.token ≠ .mark .dot) {added : Imports}
    (writable : ∀ i ∈ added, i.Writable) (nonempty : added ≠ [])
    (same : h'.words = words false pre ++ ((newBlock added.inOrder).words ++ words false post))
    (valid : h'.Valid) (rest : h'.rest = h.rest)
    (perm : (h'.specs.map Grammar.SpecWords.toImport).Perm
      (h.specs.map Grammar.SpecWords.toImport ++ added)) :
    Extends segments h ds [insertAt (Utf8.size (textOf pre)) ("\n\n" ++ added.render)] added := by
  have ordered : ∀ i ∈ added.inOrder, i.Writable :=
    fun i member => writable i (Imports.mem_inOrder.1 member)
  have text := textOf_block nonempty
  have scanned := parsed.scanned
  rw [whole] at scanned
  refine ⟨pre ++ (blockSegments added.inOrder ++ post), h', ⟨?_, ?_, ?_, valid, ?_,
    parsed.clauseless, parsed.importless⟩, ?_, perm⟩
  · exact insert_lines scanned header first last (lexedBefore_block ordered _) rfl
  · intro s member
    rcases List.mem_append.1 member with kept | later
    · exact parsed.real s (by rw [whole]; exact List.mem_append_left _ kept)
    · rcases List.mem_append.1 later with new | kept
      · exact real_block _ s new
      · exact parsed.real s (by rw [whole]; exact List.mem_append_right _ kept)
  · rw [words_append, words_block, same]
  · rw [rest]
    exact parsed.rest
  · rw [whole, textOf_append, splice_insertAt, textOf_append, textOf_append, text]

/-- A file without imports gets a declaration behind its package clause. -/
theorem extends_after_clause {segments : List Segment} {h : Header} {ds : List Draft}
    (parsed : Parsed segments h ds) (same : words false segments = h.words) (bare : h.items = [])
    {added : Imports} (writable : ∀ i ∈ added, i.Writable) (nonempty : added ≠ [])
    (nodup : added.Nodup) :
    Extends segments h ds
      [insertAt (stopOf segments (h.sep.toList.length + h.behind.length + 1)).offset
        ("\n\n" ++ added.render)] added := by
  obtain ⟨key, name, sep, items, rest⟩ := h
  obtain rfl : items = [] := bare
  have behind : Header.behind ⟨key, name, sep, [], rest⟩ = rest := rfl
  have all : words false segments = [key] ++ name :: (sep.toList ++ rest) := same
  obtain ⟨pre, s, post, place⟩ := exists_wordAt all
  have known : words false (pre ++ [s]) = [key, name] := by
    rw [words_append, place.first, words_of_word place.here, place.broken, place.text]
    rfl
  have stop : (stopOf segments (sep.toList.length + rest.length + 1)).offset =
      Utf8.size (textOf (pre ++ [s])) := by
    rw [← List.length_append, place.stop, Point.offset_after, Nat.zero_add, textOf_append,
      textOf_cons, textOf_nil, List.append_nil]
  have valid := parsed.valid
  have header := valid.header
  rw [behind, stop]
  refine extends_of_place ⟨key, name, none, [⟨newBlock added.inOrder, sep⟩], rest⟩ parsed
    (by rw [place.whole, List.append_assoc]; rfl) ?_ ?_ ?_ writable nonempty ?_ ?_ rfl ?_
  · rw [known]
    intro w member
    exact header w (by simp at member ⊢; tauto)
  · simp [known]
  · rw [known]
    intro w final dot
    obtain rfl : name = w := Option.some.inj final
    have named : Grammar.isNameToken name.token := valid.named
    rw [dot] at named
    cases named
  · rw [known, place.later]
    simp [Header.words, Header.behind, topWords, TopItem.words]
  · refine ⟨valid.keyed, valid.named, .inl ?_, ⟨valid_newBlock _, ?_⟩, trivial⟩
    · rfl
    · exact valid.ended
  · have specs := specs_newBlock fun i member => writable i (Imports.mem_inOrder.1 member)
    simp only [Header.specs, List.flatMap_cons, List.flatMap_nil, List.append_nil, specs,
      List.map_nil, List.nil_append]
    exact perm_inOrder nodup

/-- Behind the end of a line, the words are the same whatever stands before. -/
theorem words_of_line_end {pre post : List Segment} (scanned : Scanned (pre ++ post))
    (ends : ∀ c ∈ (textOf post).head?, c = '\n') (newline : Bool) :
    words newline post = words true post := by
  rcases post with _ | ⟨s, post⟩
  · rfl
  have token := scanned.token_of_newline ends
  have gap : s.word? = none := by rw [Segment.word?, token]
  have broken : s.isNewline = true := by rw [Segment.isNewline, token]; rfl
  rw [words, words, gap, broken, Bool.or_true, Bool.or_true]

/-- The end of the line of an offset. -/
theorem lineEnd_append (before behind : List Char) :
    lineEnd (before ++ behind) (Utf8.size before) =
      Utf8.size (before ++ behind.takeWhile (· != '\n')) := by
  rw [lineEnd, textFrom, splitAtByte?_eq_some_iff.2 ⟨rfl, rfl⟩, Utf8.size_append]
  rfl

/-- At the end of its line a declaration and its separator have been passed, and nothing else, if no
other declaration starts there. -/
theorem words_at_line_end {pre mid post : List Segment} {sep : Option Word} {rest : List Word}
    (scanned : Scanned (pre ++ (mid ++ post))) (ends : ∀ c ∈ (textOf post).head?, c = '\n')
    (same : words false (mid ++ post) = sep.toList ++ rest)
    (few : words false mid <+: sep.toList) (ended : EndedBefore sep rest) :
    words false mid = sep.toList ∧ words false post = rest ∧ EndedBefore none rest := by
  rw [← List.append_assoc] at scanned
  have behind := words_of_line_end scanned ends
  rw [words_append, behind] at same
  have passed : words false mid = sep.toList := by
    cases sep with
    | none => exact List.prefix_nil.1 few
    | some w =>
      cases inner : words false mid with
      | cons v tail =>
        rw [inner, Option.toList_some, List.cons_prefix_cons] at few
        rw [few.1, List.prefix_nil.1 few.2, Option.toList_some]
      | nil =>
        -- a separator on a later line would not be one
        rw [inner, List.nil_append] at same
        have broken : seen true (words true post) = some .newline :=
          seen_words_true (by simp [same])
        rcases ended with terminates | ⟨absent, -⟩
        · obtain ⟨unbroken, token⟩ := Grammar.isTerminator_iff.1 terminates
          rw [same, Option.toList_some, seen] at broken
          rcases token with token | token <;> simp [unbroken, token] at broken
        · cases absent
  rw [passed] at same
  have later : words true post = rest := List.append_cancel_left same
  refine ⟨passed, (behind false).trans later, ?_⟩
  by_cases empty : rest = []
  · exact .inr ⟨rfl, empty⟩
  · refine .inl ?_
    rw [← later] at empty ⊢
    exact seen_words_true empty

/-- The end of the line of a word is a place between segments, with the separator behind the word
and nothing else passed, unless it is inside a lexeme or behind the start of what follows. -/
theorem exists_line_end {segments : List Segment} (scanned : Scanned segments)
    {above rest : List Word} {w : Word} {sep : Option Word}
    (all : words false segments = above ++ w :: (sep.toList ++ rest))
    (ended : EndedBefore sep rest) {offset : Nat}
    (place : offset = lineEnd (textOf segments)
      (stopOf segments (sep.toList.length + rest.length + 1)).offset)
    (uncut : Lexeme.Uncut (textOf segments) offset)
    (early : rest ≠ [] → offset ≤ (startOf segments rest.length).offset) :
    ∃ pre post, segments = pre ++ post ∧ offset = Utf8.size (textOf pre) ∧
      words false pre = above ++ w :: sep.toList ∧ words false post = rest ∧
      EndedBefore none rest := by
  obtain ⟨pre, s, post, here⟩ := exists_wordAt all
  have known : words false (pre ++ [s]) = above ++ [w] := by
    rw [words_append, here.first, words_of_word here.here, here.broken, here.text]
    rfl
  have broken : lineBroken false (pre ++ [s]) = false := by
    rw [lineBroken_append, lineBroken, here.here]
    rfl
  have split : segments = (pre ++ [s]) ++ post := by
    rw [here.whole, List.append_assoc]
    rfl
  have text : textOf segments = textOf (pre ++ [s]) ++ textOf post := by
    rw [← textOf_append, ← split]
  -- the rest of the line
  have line : offset =
      Utf8.size (textOf (pre ++ [s]) ++ (textOf post).takeWhile (· != '\n')) := by
    rw [place, ← List.length_append, here.stop, Point.offset_after, Nat.zero_add, ← lineEnd_append,
      ← text, textOf_append, textOf_cons, textOf_nil, List.append_nil]
  have parts : textOf segments = (textOf (pre ++ [s]) ++ (textOf post).takeWhile (· != '\n')) ++
      (textOf post).dropWhile (· != '\n') := by
    rw [List.append_assoc, List.takeWhile_append_dropWhile, text]
  have ends : ∀ c ∈ ((textOf post).dropWhile (· != '\n')).head?, c = '\n' := by
    intro c head
    have stops := List.head?_dropWhile_not (· != '\n') (textOf post)
    rw [head] at stops
    simpa using stops
  rw [line] at uncut early
  obtain ⟨pre', post', split', front, behind⟩ := scanned.exists_boundary parts uncut
  rw [← front] at early line
  rw [← behind] at ends
  obtain ⟨mid, rfl, rfl⟩ := exists_between split split' scanned.text_ne_nil (by
    rw [front, Utf8.size_append]
    exact Nat.le_add_right ..)
  have few : words false mid <+: sep.toList := by
    rcases rest with _ | ⟨r, rs⟩
    · have later := here.later
      rw [words_append, List.append_nil] at later
      exact ⟨_, later⟩
    · -- the line ends before what follows starts
      have next : words false segments = (above ++ w :: sep.toList) ++ r :: rs := by
        rw [all]
        simp
      obtain ⟨preR, t, postR, other⟩ := exists_wordAt next
      have le := early (List.cons_ne_nil r rs)
      rw [List.length_cons, other.start, Point.offset_after, Nat.zero_add] at le
      obtain ⟨more, rfl, -⟩ := exists_between split' other.whole scanned.text_ne_nil le
      have longer := other.first
      rw [words_append, words_append, known, broken, List.append_assoc,
        show above ++ w :: sep.toList = (above ++ [w]) ++ sep.toList by simp] at longer
      exact ⟨_, List.append_cancel_left longer⟩
  rw [split] at scanned
  obtain ⟨passed, later, bare⟩ := words_at_line_end scanned ends here.later few ended
  refine ⟨pre ++ [s] ++ mid, post', split', line, ?_, later, bare⟩
  rw [words_append, known, broken, passed]
  simp

/-- A file with imports gets a declaration at the end of the line of the last one, unless that is
inside a lexeme or behind the start of another declaration. -/
theorem extends_after_imports {segments : List Segment} {h : Header} {ds : List Draft}
    (parsed : Parsed segments h ds) (same : words false segments = h.words)
    {init : List TopItem} {decl : DeclWords} {sep : Option Word}
    (items : h.items = init ++ [⟨decl, sep⟩]) {added : Imports}
    (writable : ∀ i ∈ added, i.Writable) (nonempty : added ≠ []) (nodup : added.Nodup)
    {offset : Nat} (place : offset = lineEnd (textOf segments)
      (stopOf segments (sep.toList.length + h.rest.length + 1)).offset)
    (uncut : Lexeme.Uncut (textOf segments) offset)
    (early : h.rest ≠ [] → offset ≤ (startOf segments h.rest.length).offset) :
    Extends segments h ds [insertAt offset ("\n\n" ++ added.render)] added := by
  have valid := parsed.valid
  have before := valid.items
  rw [items, Grammar.topBefore_append] at before
  obtain ⟨declared, ended⟩ := before.2.1
  obtain ⟨front, w, whole, solid⟩ := declared.exists_last
  -- the words up to the separator of the declaration
  have upTo : h.key :: h.name :: (h.sep.toList ++ topWords h.items) =
      h.key :: h.name :: (h.sep.toList ++ (topWords init ++ front)) ++ w :: sep.toList := by
    rw [items]
    simp [topWords, TopItem.words, whole]
  have all : words false segments =
      h.key :: h.name :: (h.sep.toList ++ (topWords init ++ front)) ++
        w :: (sep.toList ++ h.rest) := by
    rw [same]
    simp [Header.words, Header.behind, items, topWords, TopItem.words, whole]
  obtain ⟨pre, post, split, rfl, first, later, bare⟩ :=
    exists_line_end parsed.scanned all ended place uncut early
  rw [← upTo] at first
  refine extends_of_place { h with items := h.items ++ [⟨newBlock added.inOrder, none⟩] } parsed
    split ?_ ?_ ?_ writable nonempty ?_ ?_ rfl ?_
  · rw [first]
    exact valid.header
  · simp [first]
  · rw [first, upTo, List.getLast?_append_of_ne_nil _ (List.cons_ne_nil _ _)]
    intro v final
    cases separated : sep with
    | none =>
      rw [separated] at final
      exact Option.some.inj final ▸ solid
    | some t =>
      rw [separated] at final ended
      obtain rfl : t = v := Option.some.inj final
      rcases ended with terminates | ⟨absent, -⟩
      · rcases (Grammar.isTerminator_iff.1 terminates).2 with token | token <;> simp [token]
      · cases absent
  · rw [first, later]
    simp [Header.words, Header.behind, topWords, TopItem.words]
  · have newline (rest : List Word) :
        seen true (topWords [⟨newBlock added.inOrder, none⟩] ++ rest) = some .newline := rfl
    refine ⟨valid.keyed, valid.named, valid.ended.change ?_, ?_⟩
    · obtain ⟨i, others, cons⟩ : ∃ i others, h.items = i :: others :=
        List.exists_cons_of_ne_nil (by simp [items])
      rw [Header.behind, Header.behind, cons, List.cons_append, Grammar.head?_topWords_append,
        Grammar.head?_topWords_append]
      exact .inl rfl
    · exact Grammar.topBefore_append.2 ⟨valid.items.change (.inr (newline _)),
        ⟨valid_newBlock _, bare⟩, trivial⟩
  · have specs := specs_newBlock fun i member => writable i (Imports.mem_inOrder.1 member)
    simp only [Header.specs, List.flatMap_append, List.flatMap_cons, List.flatMap_nil,
      List.append_nil, List.map_append, specs]
    exact (perm_inOrder nodup).append_left _

end Marginalia.Edit
