/-
Module: Marginalia.Proofs.Go.HeaderTokens
Purpose: The words of a header are names, literals and a few marks.
Main exports:
  Header.Valid.header, seen_words_true, calm_of_words
-/
import Marginalia.Proofs.Go.SourceFile
import Marginalia.Proofs.Go.Stability

namespace Marginalia.Go

namespace Grammar

theorem isHeaderToken_of_isNameToken {token : Token} (name : isNameToken token) :
    isHeaderToken token := by
  cases token with
  | word k => rfl
  | _ => cases name

theorem isHeaderToken_of_literal {token : Token} (literal : (literalKind? token).isSome) :
    isHeaderToken token := by
  cases token with
  | quoted => rfl
  | raw => rfl
  | _ => cases literal

theorem isHeaderToken_of_isTerminator {w : Word} (ends : isTerminator w) :
    isHeaderToken w.token := by
  rcases (isTerminator_iff.1 ends).2 with token | token <;> rw [token] <;> rfl

theorem SpecWords.Valid.header {s : SpecWords} (valid : s.Valid) :
    ∀ w ∈ s.words, isHeaderToken w.token := by
  intro w member
  rcases List.mem_append.1 member with name | path
  · rcases valid.1 w (Option.mem_toList.1 name) with word | dot
    · exact isHeaderToken_of_isNameToken word
    · rw [dot]
      rfl
  · rw [List.mem_singleton.1 path]
    exact isHeaderToken_of_literal valid.2

theorem ItemsBefore.header {rest : List Word} {items : List Item}
    (before : ItemsBefore rest items) :
    ∀ w ∈ wordsOf items, isHeaderToken w.token := by
  induction items with
  | nil => simp [wordsOf]
  | cons i items ih =>
    obtain ⟨valid, separates, -⟩ := Item.before_iff.1 before.1
    intro w member
    rcases List.mem_append.1 (List.flatMap_cons ▸ member : w ∈ i.words ++ wordsOf items) with
      here | later
    · rcases List.mem_append.1 here with spec | sep
      · exact valid.header w spec
      · exact isHeaderToken_of_isTerminator (separates w (Option.mem_toList.1 sep))
    · exact ih before.2 w later

theorem DeclWords.Valid.header {decl : DeclWords} (valid : decl.Valid) :
    ∀ w ∈ decl.words, isHeaderToken w.token := by
  cases decl with
  | single key spec =>
    refine List.forall_mem_cons.2 ⟨?_, valid.2.header⟩
    rw [valid.1]
    rfl
  | block key opening items close =>
    obtain ⟨keyed, opens, before, closes⟩ := valid
    refine List.forall_mem_cons.2 ⟨by rw [keyed]; rfl, ?_⟩
    refine List.forall_mem_cons.2 ⟨by rw [opens]; rfl, ?_⟩
    refine List.forall_mem_append.2 ⟨before.header, ?_⟩
    simp [closes, isHeaderToken]

theorem EndedBefore.header {sep : Option Word} {rest : List Word} (ended : EndedBefore sep rest) :
    ∀ w ∈ sep.toList, isHeaderToken w.token := by
  rcases ended with separates | ⟨rfl, -⟩
  · cases sep with
    | none => simp
    | some v => simpa using isHeaderToken_of_isTerminator separates
  · simp

theorem TopBefore.header {rest : List Word} {items : List TopItem} (before : TopBefore rest items) :
    ∀ w ∈ topWords items, isHeaderToken w.token := by
  induction items with
  | nil => simp [topWords]
  | cons i items ih =>
    obtain ⟨⟨valid, ended⟩, later⟩ := before
    have split : topWords (i :: items) = (i.decl.words ++ i.sep.toList) ++ topWords items := by
      simp [topWords, TopItem.words]
    rw [split]
    exact List.forall_mem_append.2
      ⟨List.forall_mem_append.2 ⟨valid.header, ended.header⟩, ih later⟩

/-- The words of a header are tokens of headers. -/
theorem Header.Valid.header {h : Header} (valid : h.Valid) :
    ∀ w ∈ h.key :: h.name :: (h.sep.toList ++ topWords h.items), isHeaderToken w.token := by
  refine List.forall_mem_cons.2 ⟨by rw [valid.keyed]; rfl, ?_⟩
  refine List.forall_mem_cons.2 ⟨isHeaderToken_of_isNameToken valid.named, ?_⟩
  exact List.forall_mem_append.2 ⟨valid.ended.header, valid.items.header⟩

end Grammar

open Grammar (seen)

theorem seen_words_true {segments : List Segment} (nonempty : words true segments ≠ []) :
    seen true (words true segments) = some .newline := by
  induction segments with
  | nil => exact absurd rfl nonempty
  | cons s segments ih =>
    cases word : s.word? with
    | none =>
      have gap : words true (s :: segments) = words true segments := by simp [words, word]
      rw [gap] at nonempty ⊢
      exact ih nonempty
    | some token =>
      rw [words_of_word word]
      rfl

theorem calm_of_words {newline : Bool} {segments : List Segment}
    (header : ∀ w ∈ words newline segments, isHeaderToken w.token) : ∀ s ∈ segments, s.Calm := by
  induction segments generalizing newline with
  | nil => simp
  | cons s segments ih =>
    rw [List.forall_mem_cons]
    cases word : s.word? with
    | none =>
      rw [words, word] at header
      refine ⟨fun token known => ?_, ih header⟩
      rw [word] at known
      cases known
    | some token =>
      rw [words_of_word word, List.forall_mem_cons] at header
      refine ⟨fun token' known => ?_, ih header.2⟩
      rw [word, Option.some.injEq] at known
      exact known ▸ header.1

end Marginalia.Go
