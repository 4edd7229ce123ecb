/-
Module: Marginalia.Proofs.Go.Span
Purpose: The text at a span is what stands between the text before it and the text after it.
Main exports:
  splitAtByte?_eq_some_iff, Span.slice?_eq_some_iff, exists_middle_of_size_le,
  exists_split_of_within
-/
import Marginalia.Go.Span
import Marginalia.Proofs.Text.Utf8

namespace Marginalia.Go

/-! ### Cutting a text at an offset -/

/-- A text is cut after a number of bytes exactly where its first part has that many. -/
theorem splitAtByte?_eq_some_iff {n : Nat} {cs front back : List Char} :
    splitAtByte? n cs = some (front, back) ↔ cs = front ++ back ∧ n = Utf8.size front := by
  induction cs generalizing n front with
  | nil =>
    cases n with
    | zero =>
      simp only [splitAtByte?, Option.some.injEq, Prod.mk.injEq]
      constructor
      · rintro ⟨rfl, rfl⟩
        exact ⟨rfl, rfl⟩
      · rintro ⟨empty, -⟩
        exact (List.append_eq_nil_iff.1 empty.symm).imp Eq.symm Eq.symm
    | succ n =>
      simp only [splitAtByte?, reduceCtorEq, false_iff, not_and]
      intro empty
      rw [(List.append_eq_nil_iff.1 empty.symm).1]
      exact Nat.succ_ne_zero n
  | cons c cs ih =>
    have wide := c.utf8Size_pos
    cases n with
    | zero =>
      simp only [splitAtByte?, Option.some.injEq, Prod.mk.injEq]
      constructor
      · rintro ⟨rfl, rfl⟩
        exact ⟨rfl, rfl⟩
      · rintro ⟨whole, sizeless⟩
        have empty : front = [] := by
          by_contra nonempty
          have := Utf8.size_pos nonempty
          omega
        rw [empty] at whole
        exact ⟨empty.symm, whole⟩
    | succ n =>
      rw [splitAtByte?]
      cases front with
      | nil =>
        simp only [Utf8.size_nil, Nat.succ_ne_zero, and_false, iff_false]
        split
        · simp
        · simp
      | cons d front =>
        rw [List.cons_append, List.cons.injEq, Utf8.size_cons]
        split
        · rename_i fits
          simp only [Option.map_eq_some_iff, Prod.exists, Prod.mk.injEq, List.cons.injEq]
          constructor
          · rintro ⟨first, second, cut, ⟨rfl, rfl⟩, rfl⟩
            obtain ⟨whole, size⟩ := ih.1 cut
            exact ⟨⟨rfl, whole⟩, by omega⟩
          · rintro ⟨⟨rfl, whole⟩, size⟩
            exact ⟨front, back, ih.2 ⟨whole, by omega⟩, ⟨rfl, rfl⟩, rfl⟩
        · rename_i short
          simp only [reduceCtorEq, false_iff, not_and]
          rintro ⟨rfl, -⟩ size
          omega

/-- A span has a text exactly when it starts where the text starts and ends where it ends. -/
theorem Span.slice?_eq_some_iff {s : Span} {cs inner : List Char} :
    s.slice? cs = some inner ↔ ∃ before after, cs = before ++ (inner ++ after) ∧
      s.start = Utf8.size before ∧ s.stop = Utf8.size before + Utf8.size inner := by
  unfold slice?
  split
  · rename_i reversed
    simp only [reduceCtorEq, false_iff]
    rintro ⟨before, after, -, start, stop⟩
    omega
  · rename_i forward
    simp only [Option.bind_eq_bind, Option.bind_eq_some_iff, Prod.exists, Option.pure_def,
      Option.some.injEq]
    constructor
    · rintro ⟨before, rest, first, text, after, second, rfl⟩
      obtain ⟨rfl, start⟩ := splitAtByte?_eq_some_iff.1 first
      obtain ⟨rfl, long⟩ := splitAtByte?_eq_some_iff.1 second
      exact ⟨before, after, rfl, start, by omega⟩
    · rintro ⟨before, after, rfl, start, stop⟩
      exact ⟨before, inner ++ after, splitAtByte?_eq_some_iff.2 ⟨rfl, start⟩, inner, after,
        splitAtByte?_eq_some_iff.2 ⟨rfl, by omega⟩, rfl⟩

/-! ### Two cuts of one text -/

/-- Of two cuts of a text the one after fewer bytes comes first. -/
theorem exists_middle_of_size_le {first second rest rest' : List Char}
    (whole : first ++ rest = second ++ rest') (short : Utf8.size first ≤ Utf8.size second) :
    ∃ middle, second = first ++ middle ∧ rest = middle ++ rest' := by
  rcases List.append_eq_append_iff.1 whole with ⟨middle, rfl, rfl⟩ | ⟨middle, rfl, rfl⟩
  · exact ⟨middle, rfl, rfl⟩
  · rw [Utf8.size_append] at short
    have empty : middle = [] := by
      by_contra more
      have := Utf8.size_pos more
      omega
    subst empty
    exact ⟨[], by simp, by simp⟩

/-- A character at an offset within a stretch of a text is a character of the stretch. -/
theorem exists_split_of_within {before inner after pre post : List Char} {c : Char}
    (whole : before ++ (inner ++ after) = pre ++ c :: post)
    (first : Utf8.size before ≤ Utf8.size pre)
    (last : Utf8.size pre < Utf8.size before + Utf8.size inner) :
    ∃ front back, pre = before ++ front ∧ inner = front ++ c :: back ∧ post = back ++ after := by
  obtain ⟨front, rfl, rest⟩ := exists_middle_of_size_le whole first
  rw [Utf8.size_append] at last
  obtain ⟨tail, rfl, rest'⟩ := exists_middle_of_size_le rest.symm (by omega)
  cases tail with
  | nil =>
    rw [List.append_nil] at last
    omega
  | cons d back =>
    rw [List.cons_append, List.cons.injEq] at rest'
    obtain ⟨rfl, rfl⟩ := rest'
    exact ⟨front, back, rfl, rfl, rfl⟩

end Marginalia.Go
