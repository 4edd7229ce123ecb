/-
Module: Marginalia.Proofs.Edit.Written
Purpose: The segments and words of import specs as they are written into a file.
Main exports:
  Import.Writable, written, lexedBefore_written, words_written, toImport_specWords, linedSegments,
  inlineSegments
-/
import Marginalia.Proofs.Go.Declared
import Marginalia.Proofs.Go.Qualifier
import Marginalia.Proofs.Go.Stability

namespace Marginalia

/-- An import whose alias, if it has one, is a word and whose path has the characters of paths. -/
structure Go.Import.Writable (i : Go.Import) : Prop where
  name : ∀ n ∈ i.name, Go.isWord n
  path : i.path.toList.all Go.isPathChar

namespace Edit

open Go Go.Lexeme
open Go.Grammar (Item SpecWords ItemsBefore seen wordsOf)

/-! ### One spec -/

theorem at?_quoted {path : List Char} (plain : path.all isPathChar) (rest : List Char) :
    at? '"' (path ++ '"' :: rest) = some (.quoted, path.length + 2) := by
  refine at?_of_special? ?_
  have closed : quotedTail 0 ((path ++ ['"']) ++ rest) = some (path.length + 1) :=
    (quotedTail_append_iff (by simp)).2 (quotedTail_of_plain plain)
  rw [List.append_assoc, List.singleton_append] at closed
  simp [special?, closed]

/-- The segments of an alias, if there is one, and the blank after it. -/
def nameSegments : Option String → List Segment
  | some n => [⟨some (.word (Keyword.ofWord? n.toList)), n.toList⟩, ⟨none, [' ']⟩]
  | none => []

/-- The segments of an import spec as it is written. -/
def written (i : Import) : List Segment :=
  nameSegments i.name ++ [⟨some .quoted, '"' :: (i.path.toList ++ ['"'])⟩]

theorem textOf_written (i : Import) : textOf (written i) = i.render.toList := by
  obtain ⟨_ | n, path⟩ := i
  · simp [written, nameSegments, Import.render]
  · simp [written, nameSegments, Import.render]

theorem lexedBefore_written {i : Import} (writable : i.Writable) (rest : List Char) :
    LexedBefore rest (written i) := by
  have path : LexedBefore rest [⟨some .quoted, '"' :: (i.path.toList ++ ['"'])⟩] := by
    refine ⟨?_, trivial⟩
    have found := at?_quoted writable.path rest
    simpa [Segment.Fits] using found
  refine lexedBefore_append.2 ⟨?_, path⟩
  cases named : i.name with
  | none => trivial
  | some n =>
    have word := writable.name n named
    unfold isWord at word
    refine ⟨?_, ⟨rfl, at?_space (by decide) _⟩, trivial⟩
    cases letters : n.toList with
    | nil => simp [letters] at word
    | cons c inner =>
      simp only [letters, Bool.and_eq_true] at word
      exact at?_word word.1 word.2

theorem real_written (i : Import) : ∀ s ∈ written i, s.token ≠ some .stray := by
  obtain ⟨_ | n, path⟩ := i
  · simp [written, nameSegments]
  · simp [written, nameSegments]

/-- The words of an import spec as it is written, with or without a newline before it. -/
def specWords (newline : Bool) (i : Import) : SpecWords where
  name := i.name.map fun n => ⟨.word (Keyword.ofWord? n.toList), newline, n.toList⟩
  path := ⟨.quoted, newline && i.name.isNone, '"' :: (i.path.toList ++ ['"'])⟩

theorem words_written (newline : Bool) (i : Import) (rest : List Segment) :
    words newline (written i ++ rest) = (specWords newline i).words ++ words false rest := by
  obtain ⟨_ | n, path⟩ := i
  · simp [written, nameSegments, specWords, SpecWords.words, words, Segment.word?]
  · simp [written, nameSegments, specWords, SpecWords.words, words, Segment.word?,
      Segment.isNewline]

theorem valid_specWords (newline : Bool) (i : Import) : (specWords newline i).Valid := by
  refine ⟨?_, rfl⟩
  intro w named
  obtain ⟨n, -, rfl⟩ := Option.map_eq_some_iff.1 named
  exact .inl rfl

theorem seen_specWords (newline : Bool) (i : Import) (rest : List Word) (broken : newline = true) :
    seen true ((specWords newline i).words ++ rest) = some .newline := by
  subst broken
  obtain ⟨_ | n, path⟩ := i <;> rfl

theorem dropWhile_of_head {p : Char → Bool} {cs : List Char} (stops : ∀ c ∈ cs.head?, p c = false) :
    cs.dropWhile p = cs := by
  rcases cs with _ | ⟨c, cs⟩
  · rfl
  · rw [List.dropWhile_cons_of_neg]
    simpa using stops c rfl

theorem unquote_quoted {path : List Char} (plain : path.all isPathChar) :
    unquote (String.ofList ('"' :: (path ++ ['"']))) = String.ofList path := by
  have solid : ∀ c ∈ path, (c == '"' || c == '\x60') = false := by
    intro c member
    have char := List.all_eq_true.1 plain c member
    rw [Bool.or_eq_false_iff, beq_eq_false_iff_ne, beq_eq_false_iff_ne]
    constructor
    · rintro rfl
      exact absurd char (by decide)
    · rintro rfl
      exact absurd char (by decide)
  rcases path with _ | ⟨c, path⟩
  · decide
  have front : ((c :: path) ++ ['"']).dropWhile (fun c => c == '"' || c == '\x60') =
      (c :: path) ++ ['"'] :=
    dropWhile_of_head fun d head => solid d (by cases head; exact List.mem_cons_self)
  have back : (c :: path).reverse.dropWhile (fun c => c == '"' || c == '\x60') =
      (c :: path).reverse :=
    dropWhile_of_head fun d head => solid d (List.mem_reverse.1 (List.mem_of_mem_head? head))
  simp only [unquote, String.toList_ofList, Text.dropEndWhile]
  rw [List.dropWhile_cons_of_pos (by rfl), front, List.reverse_append, List.reverse_singleton,
    List.singleton_append, List.dropWhile_cons_of_pos (by rfl), back, List.reverse_reverse]

/-- What is written is read back. -/
theorem toImport_specWords {i : Import} (writable : i.Writable) (newline : Bool) :
    (specWords newline i).toImport = i := by
  have path := unquote_quoted writable.path
  obtain ⟨name, text⟩ := i
  simp only [SpecWords.toImport, specWords] at path ⊢
  rw [path, String.ofList_toList]
  cases name with
  | none => rfl
  | some n => simp

/-! ### Specs on lines of their own -/

/-- The segments of specs with a line for each. -/
def linedSegments (imports : List Import) : List Segment :=
  imports.flatMap fun i => ⟨none, ['\t']⟩ :: (written i ++ [⟨some .newline, ['\n']⟩])

/-- The items that specs on lines of their own are. -/
def linedItems (imports : List Import) : List Item :=
  imports.map fun i => ⟨specWords true i, none⟩

theorem textOf_lined (imports : List Import) :
    textOf (linedSegments imports) =
      imports.flatMap fun i => '\t' :: (i.render.toList ++ ['\n']) := by
  induction imports with
  | nil => rfl
  | cons i imports ih =>
    have split : linedSegments (i :: imports) =
        ⟨none, ['\t']⟩ :: (written i ++ [⟨some .newline, ['\n']⟩]) ++ linedSegments imports := rfl
    rw [split, textOf_append, ih]
    simp [textOf_written]

theorem lexedBefore_lined {imports : List Import} (writable : ∀ i ∈ imports, i.Writable)
    (rest : List Char) : LexedBefore rest (linedSegments imports) := by
  induction imports with
  | nil => trivial
  | cons i imports ih =>
    obtain ⟨first, others⟩ := List.forall_mem_cons.1 writable
    refine lexedBefore_append.2 ⟨⟨⟨rfl, at?_space (by decide) _⟩, ?_⟩, ih others⟩
    exact lexedBefore_append.2 ⟨lexedBefore_written first _, rfl, trivial⟩

theorem real_lined (imports : List Import) :
    ∀ s ∈ linedSegments imports, s.token ≠ some .stray := by
  intro s member
  obtain ⟨i, -, inside⟩ := List.mem_flatMap.1 member
  rcases List.mem_cons.1 inside with rfl | inside
  · simp
  rcases List.mem_append.1 inside with spec | newline
  · exact real_written i s spec
  · rw [List.mem_singleton.1 newline]
    simp

theorem words_lined (imports : List Import) (rest : List Segment) :
    words true (linedSegments imports ++ rest) =
      wordsOf (linedItems imports) ++ words true rest := by
  induction imports with
  | nil => rfl
  | cons i imports ih =>
    have split : linedSegments (i :: imports) ++ rest = ⟨none, ['\t']⟩ ::
        (written i ++ (⟨some .newline, ['\n']⟩ :: (linedSegments imports ++ rest))) := by
      simp [linedSegments]
    have blank : words true (linedSegments (i :: imports) ++ rest) =
        words true (written i ++ (⟨some .newline, ['\n']⟩ :: (linedSegments imports ++ rest))) := by
      rw [split]
      rfl
    have newline : words false (⟨some .newline, ['\n']⟩ :: (linedSegments imports ++ rest)) =
        words true (linedSegments imports ++ rest) := rfl
    rw [blank, words_written, newline, ih]
    simp [linedItems, wordsOf, Item.words]

theorem itemsBefore_lined (imports : List Import) {rest : List Word}
    (broken : seen true rest = some .newline) : ItemsBefore rest (linedItems imports) := by
  induction imports with
  | nil => trivial
  | cons i imports ih =>
    refine ⟨⟨valid_specWords true i, .inl ?_⟩, ih⟩
    cases imports with
    | nil => exact broken
    | cons j imports =>
      have first := seen_specWords true j (wordsOf (linedItems imports) ++ rest) rfl
      simpa [Grammar.Separates, linedItems, wordsOf, Item.words] using first

theorem toImport_lined {imports : List Import} (writable : ∀ i ∈ imports, i.Writable) :
    (linedItems imports).map (fun i => i.spec.toImport) = imports := by
  rw [linedItems, List.map_map]
  refine (List.map_congr_left fun i member => ?_).trans (List.map_id imports)
  exact toImport_specWords (writable i member) true

/-! ### Specs on a line with others -/

/-- The segments of specs with a semicolon behind each. -/
def inlineSegments (imports : List Import) : List Segment :=
  imports.flatMap fun i => written i ++ [⟨some (.mark .semicolon), [';']⟩, ⟨none, [' ']⟩]

/-- The items that specs with semicolons are, the first with or without a newline before it. -/
def inlineItems : Bool → List Import → List Item
  | _, [] => []
  | newline, i :: imports =>
    ⟨specWords newline i, some ⟨.mark .semicolon, false, [';']⟩⟩ :: inlineItems false imports

theorem textOf_inline (imports : List Import) :
    textOf (inlineSegments imports) = imports.flatMap fun i => i.render.toList ++ [';', ' '] := by
  induction imports with
  | nil => rfl
  | cons i imports ih =>
    have split : inlineSegments (i :: imports) =
        (written i ++ [⟨some (.mark .semicolon), [';']⟩, ⟨none, [' ']⟩]) ++
          inlineSegments imports := rfl
    rw [split, textOf_append, ih]
    simp [textOf_written]

theorem lexedBefore_inline {imports : List Import} (writable : ∀ i ∈ imports, i.Writable)
    (rest : List Char) : LexedBefore rest (inlineSegments imports) := by
  induction imports with
  | nil => trivial
  | cons i imports ih =>
    obtain ⟨first, others⟩ := List.forall_mem_cons.1 writable
    refine lexedBefore_append.2 ⟨lexedBefore_append.2 ⟨lexedBefore_written first _, ?_⟩,
      ih others⟩
    exact ⟨at?_single (by decide) _, ⟨rfl, at?_space (by decide) _⟩, trivial⟩

theorem real_inline (imports : List Import) :
    ∀ s ∈ inlineSegments imports, s.token ≠ some .stray := by
  intro s member
  obtain ⟨i, -, inside⟩ := List.mem_flatMap.1 member
  rcases List.mem_append.1 inside with spec | ending
  · exact real_written i s spec
  · simp only [List.mem_cons, List.not_mem_nil, or_false] at ending
    rcases ending with rfl | rfl <;> simp

theorem words_inline (newline : Bool) {imports : List Import} (nonempty : imports ≠ [])
    (rest : List Segment) :
    words newline (inlineSegments imports ++ rest) =
      wordsOf (inlineItems newline imports) ++ words false rest := by
  induction imports generalizing newline with
  | nil => exact absurd rfl nonempty
  | cons i imports ih =>
    have split : inlineSegments (i :: imports) ++ rest = written i ++
        (⟨some (.mark .semicolon), [';']⟩ :: ⟨none, [' ']⟩ ::
          (inlineSegments imports ++ rest)) := by
      simp [inlineSegments]
    have ending : words false (⟨some (.mark .semicolon), [';']⟩ :: ⟨none, [' ']⟩ ::
        (inlineSegments imports ++ rest)) = ⟨.mark .semicolon, false, [';']⟩ ::
          words false (inlineSegments imports ++ rest) := rfl
    have later : words false (inlineSegments imports ++ rest) =
        wordsOf (inlineItems false imports) ++ words false rest := by
      cases imports with
      | nil => rfl
      | cons j imports => exact ih false (List.cons_ne_nil j imports)
    rw [split, words_written, ending, later]
    simp [inlineItems, wordsOf, Item.words]

theorem itemsBefore_inline (newline : Bool) (imports : List Import) (rest : List Word) :
    ItemsBefore rest (inlineItems newline imports) := by
  induction imports generalizing newline with
  | nil => trivial
  | cons i imports ih => exact ⟨⟨valid_specWords newline i, .inl rfl⟩, ih false⟩

theorem toImport_inline (newline : Bool) {imports : List Import}
    (writable : ∀ i ∈ imports, i.Writable) :
    (inlineItems newline imports).map (fun i => i.spec.toImport) = imports := by
  induction imports generalizing newline with
  | nil => rfl
  | cons i imports ih =>
    obtain ⟨first, others⟩ := List.forall_mem_cons.1 writable
    rw [inlineItems, List.map_cons, ih false others, toImport_specWords first]

end Edit
end Marginalia
