/-
Module: Marginalia.Proofs.Edit.Landing
Purpose: The imports that are added to a block land at gaps between its items.
Main exports:
  Listed, slotText, Landing, Opened.exists_landing, Opened.adds_entry, perm_groups,
  Opened.exists_grown_block
-/
import Marginalia.Proofs.Edit.Growth
import Marginalia.Proofs.Edit.SortedBlock
import Marginalia.Proofs.Go.Parse

namespace Marginalia.Edit

open Go
open Go.Grammar (Item SpecWords wordsOf ItemsBefore Ends seen)

/-! ### New items -/

section Fillings

variable {imports : List Import} (writable : ∀ i ∈ imports, i.Writable) (nonempty : imports ≠ [])

include writable nonempty

omit writable in
theorem seen_linedItems (rest : List Word) :
    seen true (wordsOf (linedItems imports) ++ rest) = some .newline := by
  obtain ⟨i, imports, rfl⟩ := List.exists_cons_of_ne_nil nonempty
  have first := seen_specWords true i (wordsOf (linedItems imports) ++ rest) rfl
  simpa [linedItems, wordsOf, Item.words] using first

theorem filling_lined (post : List Segment) :
    Filling true post imports (linedSegments imports) (linedItems imports) true where
  lexed := lexedBefore_lined writable
  real := real_lined imports
  words := words_lined imports
  before _ broken := itemsBefore_lined imports (broken rfl)
  starts _ := seen_linedItems nonempty
  imports := toImport_lined writable

theorem filling_closing (broken : Bool) (post : List Segment) :
    Filling broken post imports (⟨some .newline, ['\n']⟩ :: linedSegments imports)
      (linedItems imports) true where
  lexed rest := ⟨rfl, lexedBefore_lined writable rest⟩
  real := List.forall_mem_cons.2 ⟨by simp, real_lined imports⟩
  words rest := by
    have newline : words broken (⟨some .newline, ['\n']⟩ :: linedSegments imports ++ rest) =
        words true (linedSegments imports ++ rest) := by
      simp [words, Segment.word?, Segment.isNewline]
    rw [newline, words_lined]
  before _ broken := itemsBefore_lined imports (broken rfl)
  starts _ := seen_linedItems nonempty
  imports := toImport_lined writable

theorem filling_inline {broken : Bool} {post : List Segment}
    (ends : Ends (words broken post) → broken = true) :
    Filling broken post imports (inlineSegments imports) (inlineItems broken imports) false where
  lexed := lexedBefore_inline writable
  real := real_inline imports
  words := words_inline broken nonempty
  before rest _ := itemsBefore_inline broken imports rest
  starts next rest := by
    obtain ⟨i, imports, rfl⟩ := List.exists_cons_of_ne_nil nonempty
    have first := seen_specWords broken i (⟨.mark .semicolon, false, [';']⟩ ::
      (wordsOf (inlineItems false imports) ++ rest)) (ends next)
    simpa [inlineItems, wordsOf, Item.words] using first
  imports := toImport_inline broken writable

end Fillings

/-! ### Where an import lands -/

/-- The specs of a declaration start where the items of a block do, and it is closed where the block
is. -/
structure Listed (segments : List Segment) (items : List Item) (back : List Word)
    (decl : ImportDecl) (close : Nat) : Prop where
  specs : ∀ x ∈ decl.specs, ∃ before i after, items = before ++ i :: after ∧
    x.1.start = (startOf segments ((wordsOf (i :: after)).length + (back.length + 1))).offset
  close : close = (startOf segments (back.length + 1)).offset

/-- The text for an import at an offset of a block that closes at `close`: a line of its own where
lines begin, and else something on the line. -/
def slotText (source : List Char) (close offset : Nat) (i : Import) : String :=
  if (textBefore source offset).getLast? = some '\n' then "\t" ++ i.render ++ "\n"
  else if offset = close then "\n\t" ++ i.render
  else i.render ++ "; "

/-- An import lands at a gap, where its text is the one for the offset. Specs on the line of an item
take its newline. -/
structure Landing (segments : List Segment) (front : List Word) (items : List Item) (close : Nat)
    (place : Nat × String) (i : Import) (pre post : List Segment) : Prop where
  gap : ∃ j, Gap segments front items pre post j
  place : place =
    (Utf8.size (textOf pre), slotText (textOf segments) close (Utf8.size (textOf pre)) i)
  inline : (textOf pre).getLast? ≠ some '\n' → Utf8.size (textOf pre) ≠ close →
    Ends (words (lineBroken false pre) post) → lineBroken false pre = true

section Landing

theorem textBefore_append {source before behind : List Char} (whole : source = before ++ behind) :
    textBefore source (Utf8.size before) = before := by
  rw [textBefore, splitAtByte?_eq_some_iff.2 ⟨whole, rfl⟩]
  rfl

theorem getLast?_of_lineStart? {source before behind : List Char}
    (whole : source = before ++ behind)
    (within : lineStart? source (Utf8.size before) = none) : before.getLast? ≠ some '\n' := by
  intro last
  obtain ⟨front, rfl⟩ := List.getLast?_eq_some_iff.1 last
  obtain ⟨lines, current, -, text, -⟩ := exists_linesText front
  have lined : front ++ ['\n'] = linesText (lines ++ [current]) := by
    rw [linesText_append, text]
    simp [linesText]
  rw [lined] at whole within
  rw [lineStart?_linesText whole] at within
  cases within

/-- Of two words the one behind starts later. -/
theorem startOf_lt {segments : List Segment} (solid : ∀ s ∈ segments, s.text ≠ [])
    {before mid after : List Word} {w v : Word}
    (split : words false segments = before ++ w :: (mid ++ v :: after)) :
    (startOf segments ((mid ++ v :: after).length + 1)).offset <
      (startOf segments (after.length + 1)).offset := by
  obtain ⟨pre, s, post, place⟩ := exists_wordAt split
  obtain ⟨pre', s', post', whole, -, here, -, -, later⟩ := exists_segment_of_words place.later
  have all : segments = (pre ++ s :: pre') ++ s' :: post' := by
    rw [place.whole, whole]
    simp
  have found : wordLexeme? segments (after.length + 1) =
      some ⟨v.token, Point.after ⟨0, 0⟩ (textOf (pre ++ s :: pre')),
        Point.after ⟨0, 0⟩ (textOf (pre ++ s :: pre') ++ s'.text)⟩ := by
    rw [wordLexeme?, all, ← later]
    exact numbered?_solid _ _ here
  have positive := Utf8.size_pos (solid s (by simp [place.whole]))
  rw [place.start, startOf, found, Option.map_some, Option.getD_some, Point.offset_after,
    Point.offset_after, textOf_append, textOf_cons, Utf8.size_append, Utf8.size_append]
  omega

variable {segments : List Segment} {front : List Word} {items : List Item} {close : Word}
  {back : List Word} (opened : Opened segments front items close back)

include opened

/-- Where items begin or end, no word and no dot is last. -/
theorem Opened.solid (j : Nat) : ∀ w ∈ (front ++ wordsOf (items.take j)).getLast?,
    (∀ k, w.token ≠ .word k) ∧ w.token ≠ .mark .dot := by
  have before := opened.before
  rw [← List.take_append_drop j items, Grammar.itemsBefore_append] at before
  generalize items.take j = first at before
  rcases List.eq_nil_or_concat first with rfl | ⟨init, i, rfl⟩
  · obtain ⟨w, last, opens⟩ := opened.opening
    rw [wordsOf, List.flatMap_nil, List.append_nil, last]
    rintro v ⟨⟩
    simp [opens]
  · rw [List.concat_eq_append] at before ⊢
    obtain ⟨valid, ends⟩ := (Grammar.itemsBefore_append.1 before.1).2.1
    have whole : front ++ wordsOf (init ++ [i]) =
        front ++ wordsOf init ++ i.spec.name.toList ++ (i.spec.path :: i.sep.toList) := by
      simp [wordsOf, Item.words, SpecWords.words]
    rw [whole, List.getLast?_append_of_ne_nil _ (List.cons_ne_nil _ _)]
    intro w last
    cases separated : i.sep with
    | none =>
      rw [separated] at last
      obtain rfl : i.spec.path = w := Option.some.inj last
      have literal := valid.2
      constructor
      · intro k token
        rw [token] at literal
        cases literal
      · intro token
        rw [token] at literal
        cases literal
    | some v =>
      rw [separated] at last ends
      obtain rfl : v = w := Option.some.inj last
      rcases ends with terminates | ⟨absent, -⟩
      · rcases (Grammar.isTerminator_iff.1 terminates).2 with token | token <;> simp [token]
      · cases absent

/-- There is a gap right before a word behind some of the items. -/
theorem Opened.gap_of_word {before after : List Word} {w : Word} {pre post : List Segment}
    {s : Segment} (place : WordAt segments before w after pre s post) {j : Nat}
    (first : before = front ++ wordsOf (items.take j)) (within : j ≤ items.length) :
    Gap segments front items pre (s :: post) j where
  whole := place.whole
  words := place.first.trans first
  within := within
  closed := by
    have scanned := opened.scanned
    rw [place.whole] at scanned
    refine scanned.closed_of_word place.here ?_
    rw [place.first, first]
    exact opened.solid j

/-- There is a gap at the start of lines that hold only comments and blanks up to another gap. -/
theorem Opened.gap_of_line {pre post : List Segment} {j : Nat}
    (gap : Gap segments front items pre post j) {lines : List (List Char)} {tail : List Char}
    (text : textOf pre = linesText lines ++ tail) (quiet : Quiet tail)
    (uncut : Lexeme.Uncut (textOf segments) (Utf8.size (linesText lines))) :
    ∃ pre' post', Gap segments front items pre' post' j ∧ textOf pre' = linesText lines ∧
      (textOf pre').getLast? = some '\n' := by
  have whole : textOf segments = linesText lines ++ (tail ++ textOf post) := by
    rw [gap.whole, textOf_append, text, List.append_assoc]
  obtain ⟨pre', post', split, same, -⟩ := opened.scanned.exists_boundary whole uncut
  obtain ⟨mid, rfl, rfl⟩ := exists_between split gap.whole opened.scanned.text_ne_nil (by
    rw [same, text, Utf8.size_append]
    exact Nat.le_add_right ..)
  have scanned := opened.scanned
  rw [split] at scanned
  have real := opened.real
  rw [split] at real
  rw [textOf_append, same] at text
  -- nothing between the two places is a word
  have wordless : Go.words (lineBroken false pre') mid = [] := by
    refine words_of_wordless (scanned.wordless_of_quiet (fun s member => real s ?_) ?_) _
    · simp [member]
    · rwa [List.append_cancel_left text]
  have first : Go.words false pre' = front ++ wordsOf (items.take j) := by
    have both := gap.words
    rwa [words_append, wordless, List.append_nil] at both
  have last : (textOf pre').getLast? = some '\n' := by
    rw [same]
    refine getLast?_linesText ?_
    rintro rfl
    have empty : pre' = [] := by
      rcases pre' with _ | ⟨s, pre'⟩
      · rfl
      · have textless : s.text = [] := (List.append_eq_nil_iff.1 same).1
        exact absurd textless (scanned.text_ne_nil s (by simp))
    rw [empty] at first
    exact opened.front_ne_nil (List.append_eq_nil_iff.1 first.symm).1
  refine ⟨pre', mid ++ post, ⟨split, first, gap.within, fun s final => ?_⟩, same, last⟩
  obtain ⟨init, rfl⟩ := List.getLast?_eq_some_iff.1 final
  rw [List.append_assoc] at scanned
  have solid := scanned.text_ne_nil s (by simp)
  rw [textOf_append, textOf_cons, textOf_nil, List.append_nil,
    List.getLast?_append_of_ne_nil _ solid] at last
  rw [scanned.eq_newline (real s (by simp)) last]
  exact closed_newline

/-- What stands before a spec on its line, or above it, is a gap. -/
theorem Opened.landing_before {decl : ImportDecl} {offset : Nat}
    (listed : Listed segments items back decl offset) {x : Span × String} (member : x ∈ decl.specs)
    (i : Import)
    (uncut : Lexeme.Uncut (textOf segments) (placeBefore (textOf segments) x.1.start i).1) :
    ∃ pre post, Landing segments front items offset
      (placeBefore (textOf segments) x.1.start i) i pre post := by
  obtain ⟨before, item, after, split, starts⟩ := listed.specs x member
  obtain ⟨w, ws, begins⟩ := List.exists_cons_of_ne_nil item.words_ne_nil
  have all : Go.words false segments = (front ++ wordsOf before) ++
      w :: (ws ++ (wordsOf after ++ close :: back)) := by
    rw [opened.words, split, Grammar.wordsOf_append]
    simp [wordsOf, begins]
  obtain ⟨pre, s, post, place⟩ := exists_wordAt all
  have whole : textOf segments = textOf pre ++ textOf (s :: post) := by
    rw [place.whole, textOf_append]
  have start : x.1.start = Utf8.size (textOf pre) := by
    have number : (wordsOf (item :: after)).length + (back.length + 1) =
        (ws ++ (wordsOf after ++ close :: back)).length + 1 := by
      simp only [wordsOf, List.flatMap_cons, begins, List.length_append, List.length_cons]
      omega
    rw [starts, number, place.start, Point.offset_after, Nat.zero_add]
  have gap : Gap segments front items pre (s :: post) before.length :=
    opened.gap_of_word place (by rw [split, List.take_left]) (by simp [split])
  rw [start] at uncut ⊢
  unfold placeBefore at uncut ⊢
  cases found : specLineStart? (textOf segments) (Utf8.size (textOf pre)) with
  | some line =>
    rw [found] at uncut
    obtain ⟨lines, comments, blanks, text, rfl, commented, blank⟩ :=
      specLineStart?_eq_some whole found
    obtain ⟨pre', post', gap', same, last⟩ :=
      opened.gap_of_line gap text (quiet_linesText commented blank) uncut
    have cut := textBefore_append (by rw [gap'.whole, textOf_append] :
      textOf segments = textOf pre' ++ textOf post')
    refine ⟨pre', post', ⟨_, gap'⟩, ?_, fun other => absurd last other⟩
    rw [slotText, cut, if_pos last, same]
  | none =>
    have last := getLast?_of_lineStart? whole (Option.map_eq_none_iff.1 found)
    -- the spec starts before the closing parenthesis
    have apart : Utf8.size (textOf pre) ≠ offset := by
      have longer : Go.words false segments =
          (front ++ wordsOf before) ++ w :: ((ws ++ wordsOf after) ++ close :: back) := by
        rw [all, List.append_assoc ws]
      have less := startOf_lt opened.scanned.text_ne_nil longer
      rw [List.append_assoc, place.start, Point.offset_after, Nat.zero_add, ← listed.close] at less
      exact Nat.ne_of_lt less
    have token : w.token ≠ .mark .parenR := by
      have valid := opened.before
      rw [split, Grammar.itemsBefore_append] at valid
      have other := Grammar.seen_words valid.2.1.1 item.sep.toList (m := .parenR) (by decide)
      rw [← Item.words, begins, beq_eq_false_iff_ne, Grammar.seen_cons] at other
      exact fun wrong => other (congrArg some wrong)
    refine ⟨pre, s :: post, ⟨_, gap⟩, ?_, fun _ _ ends => ?_⟩
    · rw [slotText, textBefore_append whole, if_neg last, if_neg apart]
    · by_contra unbroken
      rw [Bool.not_eq_true] at unbroken
      rw [words_of_word place.here, unbroken] at ends
      rcases ends with newline | paren
      · exact (Segment.word?_eq_some place.here).2.1 (Option.some.inj newline)
      · exact token (Option.some.inj paren)

/-- What stands before the closing parenthesis on its line is a gap. -/
theorem Opened.landing_last {decl : ImportDecl} {offset : Nat}
    (listed : Listed segments items back decl offset) (i : Import)
    (uncut : Lexeme.Uncut (textOf segments) (placeLast (textOf segments) offset i).1) :
    ∃ pre post, Landing segments front items offset (placeLast (textOf segments) offset i) i
      pre post := by
  have all : Go.words false segments = (front ++ wordsOf items) ++ close :: back := by
    rw [opened.words, List.append_assoc]
  obtain ⟨pre, s, post, place⟩ := exists_wordAt all
  have whole : textOf segments = textOf pre ++ textOf (s :: post) := by
    rw [place.whole, textOf_append]
  have start : offset = Utf8.size (textOf pre) := by
    rw [listed.close, place.start, Point.offset_after, Nat.zero_add]
  have gap : Gap segments front items pre (s :: post) items.length :=
    opened.gap_of_word place (by rw [List.take_length]) le_rfl
  rw [start] at uncut ⊢
  unfold placeLast at uncut ⊢
  cases found : lineStart? (textOf segments) (Utf8.size (textOf pre)) with
  | some line =>
    rw [found] at uncut
    obtain ⟨lines, blanks, text, rfl, -, blank, -⟩ := lineStart?_eq_some whole found
    have quiet : Quiet blanks := by simpa using Quiet.append_blanks blank .nil
    obtain ⟨pre', post', gap', same, last⟩ := opened.gap_of_line gap text quiet uncut
    have cut := textBefore_append (by rw [gap'.whole, textOf_append] :
      textOf segments = textOf pre' ++ textOf post')
    refine ⟨pre', post', ⟨_, gap'⟩, ?_, fun other => absurd last other⟩
    rw [slotText, cut, if_pos last, same]
  | none =>
    have last := getLast?_of_lineStart? whole found
    refine ⟨pre, s :: post, ⟨_, gap⟩, ?_, fun _ other => absurd rfl other⟩
    rw [slotText, textBefore_append whole, if_neg last, if_pos rfl]

/-- Every import lands at a gap, unless its place is inside a lexeme. -/
theorem Opened.exists_landing {decl : ImportDecl} {offset : Nat}
    (listed : Listed segments items back decl offset) {i : Import}
    (uncut : Lexeme.Uncut (textOf segments) (placeSpec (textOf segments) decl offset i).1) :
    ∃ pre post, Landing segments front items offset (placeSpec (textOf segments) decl offset i) i
      pre post := by
  cases found : decl.specs.find? (fun s => decide (i.path < s.2)) with
  | some x =>
    rw [placeSpec_of_find found] at uncut ⊢
    exact opened.landing_before listed (List.mem_of_find?_eq_some found) i uncut
  | none =>
    rw [placeSpec_of_not_find found] at uncut ⊢
    exact opened.landing_last listed i uncut

end Landing

/-! ### Imports at one offset -/

/-- The text at an offset is put together from the imports there. -/
theorem get?_placeAll (place : Import → Nat × String) (d : Dict Nat String) (added : Imports)
    (offset : Nat) : (placeAll place d added).get? offset =
      (added.filter fun i => (place i).1 = offset).foldl
        (fun old i => some (old.getD "" ++ (place i).2)) (d.get? offset) := by
  induction added generalizing d with
  | nil => rfl
  | cons i added ih =>
    have step : placeAll place d (i :: added) =
        placeAll place (d.insert (place i).1 ((d.get? (place i).1).getD "" ++ (place i).2)) added :=
      rfl
    rw [step, ih, Dict.get?_insert]
    by_cases here : (place i).1 = offset
    · rw [if_pos here.symm, List.filter_cons_of_pos (by simpa using here), List.foldl_cons, here]
    · rw [if_neg (Ne.symm here), List.filter_cons_of_neg (by simpa using here)]

theorem toList_of_foldl {f : Import → String} {imports : List Import} {old : Option String}
    {text : String}
    (made : imports.foldl (fun old i => some (old.getD "" ++ f i)) old = some text) :
    text.toList = (old.getD "").toList ++ imports.flatMap fun i => (f i).toList := by
  induction imports generalizing old with
  | nil =>
    obtain rfl : old = some text := made
    simp
  | cons i imports ih =>
    rw [ih made]
    simp

theorem start_asInsertion (close : Nat) (e : Nat × String) :
    (asInsertion close e).span.start = e.1 := by
  rw [asInsertion]
  split <;> rfl

/-- What is inserted at an offset: the texts of the imports there, with a newline behind those that
keep the closing parenthesis on their line. -/
theorem asInsertion_eq {close offset : Nat} {text : String} {new : List Char}
    (written : text.toList = new ∧ (offset = close → new.head? = some '\t') ∨
      offset = close ∧ text.toList.head? ≠ some '\t' ∧ text.toList ++ ['\n'] = new) :
    asInsertion close (offset, text) = ⟨⟨offset, offset⟩, Utf8.encode new⟩ := by
  rcases written with ⟨rfl, tab⟩ | ⟨same, other, rfl⟩
  · rw [asInsertion, if_neg fun both => both.2 (tab both.1)]
    rfl
  · rw [asInsertion, if_pos ⟨same, other⟩, insertAt, Utf8.ofString, String.toList_append]
    rfl

/-- An import has a text at its offset. -/
theorem mem_keys_placeAll {place : Import → Nat × String} {added : Imports} {i : Import}
    (member : i ∈ added) : (place i).1 ∈ (placeAll place ∅ added).entries.map (·.1) := by
  have inside : i ∈ added.filter fun j => (place j).1 = (place i).1 := by simp [member]
  cases known : (placeAll place ∅ added).get? (place i).1 with
  | some text => exact List.mem_map.2 ⟨_, Dict.get?_eq_some_iff.1 known, rfl⟩
  | none =>
    rw [get?_placeAll] at known
    rcases List.eq_nil_or_concat (added.filter fun j => (place j).1 = (place i).1) with
      empty | ⟨others, last, split⟩
    · rw [empty] at inside
      cases inside
    · rw [split, List.concat_eq_append, List.foldl_append] at known
      cases known

section Entries

variable {segments : List Segment} {front : List Word} {items : List Item} {close : Word}
  {back : List Word} (opened : Opened segments front items close back)

include opened

theorem Opened.broken_of_newline {pre post : List Segment} {j : Nat}
    (gap : Gap segments front items pre post j) (last : (textOf pre).getLast? = some '\n') :
    lineBroken false pre = true := by
  rcases List.eq_nil_or_concat pre with rfl | ⟨init, s, rfl⟩
  · cases last
  rw [List.concat_eq_append] at gap last ⊢
  have scanned := opened.scanned
  have real := opened.real
  rw [gap.whole, List.append_assoc] at scanned real
  have solid := scanned.text_ne_nil s (by simp)
  rw [textOf_append, textOf_cons, textOf_nil, List.append_nil,
    List.getLast?_append_of_ne_nil _ solid] at last
  have newline : s = ⟨some .newline, ['\n']⟩ := scanned.eq_newline (real s (by simp)) last
  rw [lineBroken_append, newline]
  simp [lineBroken, Segment.word?, Segment.isNewline]

/-- The texts of imports that land at a gap are new items there. -/
theorem Opened.exists_filling {pre post : List Segment} {j : Nat}
    (gap : Gap segments front items pre post j) {offset : Nat}
    (inline : (textOf pre).getLast? ≠ some '\n' → Utf8.size (textOf pre) ≠ offset →
      Ends (Go.words (lineBroken false pre) post) → lineBroken false pre = true)
    {imports : List Import} (writable : ∀ i ∈ imports, i.Writable) (nonempty : imports ≠ [])
    {text : String} (texts : text.toList = imports.flatMap fun i =>
      (slotText (textOf segments) offset (Utf8.size (textOf pre)) i).toList) :
    ∃ new fresh after, Filling (lineBroken false pre) post imports new fresh after ∧
      asInsertion offset (Utf8.size (textOf pre), text) =
        ⟨⟨Utf8.size (textOf pre), Utf8.size (textOf pre)⟩, Utf8.encode (textOf new)⟩ := by
  have cut := textBefore_append (by rw [gap.whole, textOf_append] :
    textOf segments = textOf pre ++ textOf post)
  simp only [slotText, cut] at texts
  by_cases last : (textOf pre).getLast? = some '\n'
  · have filling := filling_lined writable nonempty post
    rw [← opened.broken_of_newline gap last] at filling
    have written : text.toList = textOf (linedSegments imports) := by
      rw [texts, textOf_lined]
      simp [last]
    refine ⟨_, _, _, filling, asInsertion_eq (.inl ⟨written, fun _ => ?_⟩)⟩
    obtain ⟨i, imports, rfl⟩ := List.exists_cons_of_ne_nil nonempty
    rfl
  by_cases closing : Utf8.size (textOf pre) = offset
  · have written : text.toList = imports.flatMap fun i => '\n' :: '\t' :: i.render.toList := by
      rw [texts]
      simp [last, closing]
    refine ⟨_, _, _, filling_closing writable nonempty _ post,
      asInsertion_eq (.inr ⟨closing, ?_, ?_⟩)⟩
    · obtain ⟨i, imports, rfl⟩ := List.exists_cons_of_ne_nil nonempty
      simp [written]
    · -- each newline ends the line before
      rw [written, textOf_cons, textOf_lined]
      clear texts written nonempty writable
      induction imports with
      | nil => rfl
      | cons i imports ih =>
        rw [List.flatMap_cons, List.append_assoc, ih]
        simp
  · have written : text.toList = textOf (inlineSegments imports) := by
      rw [texts, textOf_inline]
      simp [last, closing]
    exact ⟨_, _, _, filling_inline writable nonempty (inline last closing),
      asInsertion_eq (.inl ⟨written, fun same => absurd same closing⟩)⟩

/-- What is inserted at an offset adds the imports that are placed there. -/
theorem Opened.adds_entry {decl : ImportDecl} {offset : Nat}
    (listed : Listed segments items back decl offset) {added : Imports}
    (writable : ∀ i ∈ added, i.Writable)
    (uncut : ∀ i ∈ added,
      Lexeme.Uncut (textOf segments) (placeSpec (textOf segments) decl offset i).1)
    {e : Nat × String}
    (member : e ∈ (placeAll (placeSpec (textOf segments) decl offset) ∅ added).entries) :
    Adds segments front items (asInsertion offset e)
      (added.filter fun i => (placeSpec (textOf segments) decl offset i).1 = e.1) := by
  obtain ⟨here, text⟩ := e
  have made := Dict.get?_eq_some_iff.2 member
  rw [get?_placeAll] at made
  generalize same : (added.filter fun i =>
    (placeSpec (textOf segments) decl offset i).1 = here) = imports at made
  have known : ∀ i ∈ imports, i ∈ added ∧ (placeSpec (textOf segments) decl offset i).1 = here := by
    intro i inside
    rw [← same, List.mem_filter, decide_eq_true_iff] at inside
    exact inside
  have nonempty : imports ≠ [] := by
    rintro rfl
    cases made
  have landed : ∀ i ∈ imports, ∃ pre post, Utf8.size (textOf pre) = here ∧
      Landing segments front items offset (placeSpec (textOf segments) decl offset i) i
        pre post := by
    intro i inside
    obtain ⟨pre, post, landing⟩ := opened.exists_landing listed (uncut i (known i inside).1)
    refine ⟨pre, post, ?_, landing⟩
    rw [← (known i inside).2, landing.place]
  -- the text of each is the one for the offset
  have texts : text.toList =
      imports.flatMap fun i => (slotText (textOf segments) offset here i).toList := by
    rw [toList_of_foldl made]
    refine List.flatMap_congr fun i inside => ?_
    obtain ⟨pre, post, size, landing⟩ := landed i inside
    rw [landing.place, size]
  obtain ⟨i, inside⟩ := List.exists_mem_of_ne_nil imports nonempty
  obtain ⟨pre, post, rfl, ⟨j, gap⟩, -, inline⟩ := landed i inside
  obtain ⟨new, fresh, after, filling, inserted⟩ := opened.exists_filling gap inline
    (fun i inside => writable i (known i inside).1) nonempty texts
  exact ⟨pre, post, j, new, fresh, after, gap, filling, inserted⟩

end Entries

/-! ### All imports -/

/-- The elements by their keys are all elements. -/
theorem perm_groups {α : Type} (key : α → Nat) {keys : List Nat} (nodup : keys.Nodup) {l : List α}
    (covered : ∀ a ∈ l, key a ∈ keys) :
    (keys.flatMap fun k => l.filter fun a => key a = k).Perm l := by
  induction keys generalizing l with
  | nil =>
    have empty : l = [] := List.eq_nil_iff_forall_not_mem.2 fun a member =>
      List.not_mem_nil (covered a member)
    simp [empty]
  | cons k keys ih =>
    obtain ⟨new, nodup⟩ := List.nodup_cons.1 nodup
    have others := ih nodup (l := l.filter fun a => !decide (key a = k)) fun a member => by
      simp only [List.mem_filter, Bool.not_eq_true', decide_eq_false_iff_not] at member
      exact (List.mem_cons.1 (covered a member.1)).resolve_left member.2
    have same : (keys.flatMap fun k' =>
        (l.filter fun a => !decide (key a = k)).filter fun a => key a = k') =
          keys.flatMap fun k' => l.filter fun a => key a = k' := by
      refine List.flatMap_congr fun k' member => ?_
      rw [List.filter_filter]
      refine List.filter_congr fun a _ => ?_
      by_cases here : key a = k'
      · have apart : k' ≠ k := fun wrong => new (wrong ▸ member)
        simp [here, apart]
      · simp [here]
    rw [same] at others
    exact (others.append_left _).trans (List.filter_append_perm _ l)

section Whole

variable {segments : List Segment} {front : List Word} {items : List Item} {close : Word}
  {back : List Word} (opened : Opened segments front items close back)

include opened

/-- Right behind the opening parenthesis is the first of all gaps. -/
theorem Opened.exists_first_gap : ∃ pre post, Gap segments front items pre post 0 ∧
    ∀ {pre' post' j}, Gap segments front items pre' post' j →
      Utf8.size (textOf pre) ≤ Utf8.size (textOf pre') := by
  obtain ⟨w, last, opens⟩ := opened.opening
  obtain ⟨init, rfl⟩ := List.getLast?_eq_some_iff.1 last
  have all : Go.words false segments = init ++ w :: (wordsOf items ++ close :: back) := by
    rw [opened.words]
    simp
  obtain ⟨pre, s, post, place⟩ := exists_wordAt all
  have known : Go.words (lineBroken false pre) [s] = [w] := by
    rw [words_of_word place.here, place.broken, place.text]
    rfl
  have token := (Segment.word?_eq_some place.here).1
  have gap : Gap segments (init ++ [w]) items (pre ++ [s]) post 0 := {
    whole := by rw [place.whole, List.append_assoc]; rfl
    words := by rw [words_append, place.first, known]; simp [wordsOf]
    within := Nat.zero_le _
    closed := by
      intro t final
      rw [List.getLast?_concat, Option.mem_some_iff] at final
      subst final
      rw [opens] at token
      exact ⟨by simp [token], by simp [token], by simp [token]⟩ }
  refine ⟨pre ++ [s], post, gap, fun {pre' post' j} other => ?_⟩
  by_contra less
  obtain ⟨mid, split, -⟩ := exists_between other.whole gap.whole opened.scanned.text_ne_nil
    (Nat.le_of_not_le less)
  rcases List.eq_nil_or_concat mid with rfl | ⟨mid, t, rfl⟩
  · rw [List.append_nil] at split
    exact less (by rw [split])
  · -- the parenthesis would be before that gap and behind it
    rw [List.concat_eq_append, ← List.append_assoc] at split
    obtain rfl : s = t := by simpa using (List.append_inj' split rfl).2
    have longer := congrArg List.length gap.words
    rw [split, words_append, words_append, other.words, words_of_word place.here] at longer
    simp only [List.length_append, List.length_cons, List.take_zero, wordsOf, List.flatMap_nil,
      List.length_nil] at longer
    omega

/-- The insertions into a block make it grow by all imports that are added. -/
theorem Opened.exists_grown_block {decl : ImportDecl} {offset : Nat}
    (listed : Listed segments items back decl offset) {added : Imports}
    (writable : ∀ i ∈ added, i.Writable)
    (uncut : ∀ i ∈ added,
      Lexeme.Uncut (textOf segments) (placeSpec (textOf segments) decl offset i).1) :
    ∃ grown, Scanned grown ∧ (∀ s ∈ grown, s.token ≠ some .stray) ∧
      splice (Utf8.encode (textOf segments))
        (blockInsertions (textOf segments) decl offset added) = .ok (Utf8.encode (textOf grown)) ∧
      ∃ items' close', Go.words false grown = front ++ (wordsOf items' ++ close' :: back) ∧
        ItemsBefore [close'] items' ∧ close'.token = .mark .parenR ∧
        (items'.map fun i => i.spec.toImport).Perm
          (items.map (fun i => i.spec.toImport) ++ added) := by
  generalize placed : placeAll (placeSpec (textOf segments) decl offset) ∅ added = d
  have inserted : blockInsertions (textOf segments) decl offset added =
      d.entries.map (asInsertion offset) := by
    rw [blockInsertions_eq, placed]
  have sorted : (d.entries.map (asInsertion offset)).Pairwise
      fun a b => a.span.start < b.span.start := by
    rw [List.pairwise_map]
    refine d.sorted.imp fun {a b} less => ?_
    rw [start_asInsertion, start_asInsertion]
    exact Nat.compare_eq_lt.1 less
  have adds : ∀ r ∈ d.entries.map (asInsertion offset), Adds segments front items r
      (added.filter fun i =>
        (placeSpec (textOf segments) decl offset i).1 = r.span.start) := by
    rw [List.forall_mem_map]
    intro e member
    rw [start_asInsertion]
    rw [← placed] at member
    exact opened.adds_entry listed writable uncut member
  obtain ⟨pre, post, gap, least⟩ := opened.exists_first_gap
  have ahead : ∀ r ∈ d.entries.map (asInsertion offset),
      Utf8.size (textOf pre) ≤ r.span.start := by
    intro r member
    obtain ⟨pre', post', j, new, fresh, after, other, -, rfl⟩ := adds r member
    exact least other
  obtain ⟨grown, result⟩ := exists_grown opened sorted adds gap ahead
  obtain ⟨items', close', same, before, closes, perm⟩ := result.items
  rw [List.drop_zero] at perm
  have first : Go.words false pre = front := by
    rw [gap.words]
    simp [wordsOf]
  have calm : ∀ s ∈ pre, s.Calm := by
    have header : ∀ w ∈ Go.words false pre, isHeaderToken w.token := by
      rw [first]
      exact fun w member => opened.header w (List.mem_append_left _ member)
    exact calm_of_words header
  have all : ((d.entries.map (asInsertion offset)).flatMap fun r => added.filter fun i =>
      (placeSpec (textOf segments) decl offset i).1 = r.span.start).Perm added := by
    have keys : (d.entries.map (·.1)).Nodup := by
      rw [List.nodup_iff_pairwise_ne, List.pairwise_map]
      exact d.sorted.imp fun less => Nat.ne_of_lt (Nat.compare_eq_lt.1 less)
    have covered : ∀ i ∈ added,
        (placeSpec (textOf segments) decl offset i).1 ∈ d.entries.map (·.1) := by
      rw [← placed]
      exact fun i => mem_keys_placeAll
    have groups := perm_groups (fun i => (placeSpec (textOf segments) decl offset i).1) keys covered
    rw [List.flatMap_map] at groups ⊢
    simpa only [start_asInsertion] using groups
  refine ⟨pre ++ grown, ?_, ?_, ?_, items', close', ?_, before, closes,
    perm.trans (all.append_left _)⟩
  · have scanned := opened.scanned
    rw [gap.whole] at scanned
    refine scanned.change calm result.lexed ?_ fun s last => ?_
    · rw [first]
      exact opened.front_ne_nil
    · exact ⟨(gap.closed s last).bounded _, (gap.closed s last).dot⟩
  · intro s member
    rcases List.mem_append.1 member with kept | new
    · exact opened.real s (by rw [gap.whole]; exact List.mem_append_left _ kept)
    · exact result.real s new
  · have spliced := result.spliced
    rw [← Nat.zero_add (Utf8.size (textOf pre)), ← Utf8.length_encode (textOf pre)] at ahead spliced
    have whole := spliceFrom_skip ahead spliced
    rw [inserted, splice, Utf8.length_encode]
    rw [← Utf8.encode_append, ← Utf8.encode_append, ← textOf_append, ← textOf_append,
      ← gap.whole] at whole
    exact whole
  · rw [words_append, first, same]

end Whole

end Marginalia.Edit
