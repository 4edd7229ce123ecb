/-
Module: Marginalia.Proofs.Edit.Growth
Purpose: How an import block grows when specs are written at places between its items.
Main exports:
  Opened, Gap, Filling, Grown, Grown.insert, Grown.skip, Adds, exists_grown
-/
import Marginalia.Proofs.Edit.Block
import Marginalia.Proofs.Edit.Place
import Marginalia.Proofs.Edit.Splice
import Marginalia.Proofs.Edit.Written
import Marginalia.Proofs.Go.HeaderTokens

namespace Marginalia.Edit

open Go
open Go.Grammar (Item wordsOf ItemsBefore Ends seen)

/-! ### Blocks and the gaps in them -/

/-- The words of a text are those of a block, with the words `front` up to its opening parenthesis
before its items and `back` behind its closing parenthesis. -/
structure Opened (segments : List Segment) (front : List Word) (items : List Item) (close : Word)
    (back : List Word) : Prop where
  scanned : Scanned segments
  real : ∀ s ∈ segments, s.token ≠ some .stray
  words : words false segments = front ++ (wordsOf items ++ close :: back)
  before : ItemsBefore [close] items
  closes : close.token = .mark .parenR
  header : ∀ w ∈ front ++ wordsOf items, isHeaderToken w.token
  opening : ∃ w ∈ front.getLast?, w.token = .mark .parenL

/-- A place between segments with the first `j` items of a block before it. -/
structure Gap (segments : List Segment) (front : List Word) (items : List Item)
    (pre post : List Segment) (j : Nat) : Prop where
  whole : segments = pre ++ post
  words : words false pre = front ++ wordsOf (items.take j)
  within : j ≤ items.length
  closed : ∀ s ∈ pre.getLast?, s.Closed

/-- Segments that add items for imports at a place with `post` behind it; `broken` tells whether a
newline stands before the place, and `after` whether one ends them. -/
structure Filling (broken : Bool) (post : List Segment) (imports : List Import)
    (new : List Segment) (fresh : List Item) (after : Bool) : Prop where
  lexed : ∀ rest, LexedBefore rest new
  real : ∀ s ∈ new, s.token ≠ some .stray
  words : ∀ rest, words broken (new ++ rest) = wordsOf fresh ++ words after rest
  before : ∀ rest, (after = true → seen true rest = some .newline) → ItemsBefore rest fresh
  starts : Ends (Go.words broken post) → ∀ rest, seen true (wordsOf fresh ++ rest) = some .newline
  imports : fresh.map (fun i => i.spec.toImport) = imports

/-- Replacements turn what stands behind a gap into `grown`, and the items behind the gap into items
with further imports. -/
structure Grown (segments : List Segment) (items : List Item) (back : List Word)
    (pre post : List Segment) (j : Nat) (rs : List Replacement) (added : List Import)
    (grown : List Segment) : Prop where
  spliced : spliceFrom (Utf8.size (textOf segments)) (Utf8.size (textOf pre))
    (Utf8.encode (textOf post)) rs = .ok (Utf8.encode (textOf grown))
  lexed : LexedBefore [] grown
  real : ∀ s ∈ grown, s.token ≠ some .stray
  ends : Ends (words (lineBroken false pre) post) → Ends (words (lineBroken false pre) grown)
  items : ∃ items' close', words (lineBroken false pre) grown = wordsOf items' ++ close' :: back ∧
    ItemsBefore [close'] items' ∧ close'.token = .mark .parenR ∧
    (items'.map fun i => i.spec.toImport).Perm
      ((items.drop j).map (fun i => i.spec.toImport) ++ added)

section Walk

variable {segments : List Segment} {front : List Word} {items : List Item} {close : Word}
  {back : List Word} (opened : Opened segments front items close back)

include opened

theorem Opened.front_ne_nil : front ≠ [] := by
  obtain ⟨w, last, -⟩ := opened.opening
  rintro rfl
  cases last

theorem Opened.words_behind {pre post : List Segment} {j : Nat}
    (gap : Gap segments front items pre post j) :
    Go.words (lineBroken false pre) post = wordsOf (items.drop j) ++ close :: back := by
  have whole := opened.words
  rw [gap.whole, words_append, gap.words, List.append_assoc] at whole
  have split : wordsOf items = wordsOf (items.take j) ++ wordsOf (items.drop j) := by
    rw [← Grammar.wordsOf_append, List.take_append_drop]
  rw [split, List.append_assoc] at whole
  exact List.append_cancel_left (List.append_cancel_left whole)

theorem Opened.lexed_behind {pre post : List Segment} {j : Nat}
    (gap : Gap segments front items pre post j) : LexedBefore [] post := by
  have scanned := opened.scanned
  rw [gap.whole] at scanned
  refine scanned.tail ?_
  rintro rfl
  have wordless := gap.words.symm
  exact opened.front_ne_nil (List.append_eq_nil_iff.1 wordless).1

/-- Without replacements nothing changes. -/
theorem Grown.nil {pre post : List Segment} {j : Nat} (gap : Gap segments front items pre post j) :
    Grown segments items back pre post j [] [] post where
  spliced := rfl
  lexed := opened.lexed_behind gap
  real s member := opened.real s (by rw [gap.whole]; exact List.mem_append_right _ member)
  ends := id
  items := by
    refine ⟨items.drop j, close, opened.words_behind gap, ?_, opened.closes, by simp⟩
    have before := opened.before
    rw [← List.take_append_drop j items, Grammar.itemsBefore_append] at before
    exact before.2

omit opened in
/-- New items go in front of what is behind a gap. -/
theorem Grown.insert {pre post : List Segment} {j : Nat} (gap : Gap segments front items pre post j)
    {rs : List Replacement} {added : List Import} {grown : List Segment}
    (behind : Grown segments items back pre post j rs added grown) {imports : List Import}
    {new : List Segment} {fresh : List Item} {after : Bool}
    (filling : Filling (lineBroken false pre) post imports new fresh after) :
    Grown segments items back pre post j
      (⟨⟨Utf8.size (textOf pre), Utf8.size (textOf pre)⟩, Utf8.encode (textOf new)⟩ :: rs)
      (imports ++ added) (new ++ grown) where
  spliced := by
    have inside : Utf8.size (textOf pre) ≤ Utf8.size (textOf segments) := by
      rw [gap.whole, textOf_append, Utf8.size_append]
      exact Nat.le_add_right ..
    rw [textOf_append, Utf8.encode_append]
    exact spliceFrom_insert _ inside behind.spliced
  lexed := lexedBefore_append.2 ⟨filling.lexed _, behind.lexed⟩
  real s member := (List.mem_append.1 member).elim (filling.real s) (behind.real s)
  ends ends := by
    rw [filling.words]
    exact .inl (filling.starts ends _)
  items := by
    obtain ⟨items', close', same, before, closes, perm⟩ := behind.items
    -- a newline at the end of the new segments is one before the items behind them
    have unflagged : unflag (words after grown) = unflag (wordsOf items' ++ close' :: back) := by
      rw [← same]
      exact unflag_words _ _ grown
    obtain ⟨items'', close'', flagged, token, kept, imported⟩ :=
      Grammar.exists_items_of_unflag unflagged
    have starts : after = true → seen true (wordsOf items'' ++ [close'']) = some .newline := by
      rintro rfl
      have broken : seen true (words true grown) = some .newline := by
        refine seen_words_true ?_
        rw [flagged]
        simp
      rw [flagged] at broken
      cases items'' with
      | nil => exact broken
      | cons i items'' =>
        rw [seen, Grammar.head?_wordsOf_append] at broken ⊢
        exact broken
    refine ⟨fresh ++ items'', close'', ?_, ?_, token.trans closes, ?_⟩
    · rw [filling.words, flagged, Grammar.wordsOf_append, List.append_assoc]
    · exact Grammar.itemsBefore_append.2 ⟨filling.before _ starts, kept before⟩
    · rw [List.map_append, filling.imports, imported]
      refine (perm.append_left imports).trans ?_
      rw [← List.append_assoc, ← List.append_assoc]
      exact List.perm_append_comm.append_right added

section Between

variable {pre mid post : List Segment} {i j : Nat}
  (gap : Gap segments front items pre (mid ++ post) i)
  (next : Gap segments front items (pre ++ mid) post j)

include gap next

omit opened in
/-- Between two gaps stand whole items. -/
theorem Gap.exists_inner : ∃ inner, items.drop i = inner ++ items.drop j ∧
    Go.words (lineBroken false pre) mid = wordsOf inner := by
  have le : i ≤ j := by
    by_contra greater
    have longer := Grammar.length_wordsOf_take_lt (Nat.lt_of_not_le greater) gap.within
    have lengths := congrArg List.length next.words
    rw [words_append, gap.words] at lengths
    simp only [List.length_append] at lengths
    omega
  refine ⟨(items.drop i).take (j - i), ?_, ?_⟩
  · conv_lhs => rw [← List.take_append_drop (j - i) (items.drop i), List.drop_drop]
    congr 2
    omega
  · have parts : items.take j = items.take i ++ (items.drop i).take (j - i) := by
      rw [← List.take_add]
      congr 1
      omega
    have whole := next.words
    rw [words_append, gap.words, parts, Grammar.wordsOf_append, List.append_assoc] at whole
    exact List.append_cancel_left (List.append_cancel_left whole)

/-- The words between two gaps are words of a header. -/
theorem Opened.calm_between : ∀ s ∈ mid, s.Calm := by
  obtain ⟨inner, rest, middle⟩ := gap.exists_inner next
  have header : ∀ w ∈ Go.words (lineBroken false pre) mid, isHeaderToken w.token := by
    intro w member
    rw [middle] at member
    refine opened.header w ?_
    rw [← List.take_append_drop i items, rest, Grammar.wordsOf_append, Grammar.wordsOf_append]
    simp [member]
  exact calm_of_words header

/-- What stands between two gaps is lexed as it was, whatever follows the second. -/
theorem Opened.lexed_between (following : List Char) : LexedBefore following mid := by
  have old := opened.lexed_behind gap
  rw [lexedBefore_append] at old
  refine old.1.change (opened.calm_between gap next) fun s last => ?_
  have closed := next.closed s (by rw [List.getLast?_append, last]; rfl)
  exact ⟨closed.bounded _, closed.dot⟩

variable {rs : List Replacement} {added : List Import} {grown : List Segment}
  (behind : Grown segments items back (pre ++ mid) post j rs added grown)

include behind

omit opened gap next in
/-- Between two gaps nothing is replaced. -/
theorem Grown.spliced_between :
    spliceFrom (Utf8.size (textOf segments)) (Utf8.size (textOf pre))
      (Utf8.encode (textOf (mid ++ post))) rs = .ok (Utf8.encode (textOf (mid ++ grown))) := by
  have ahead := (precedes_of_spliceFrom behind.spliced).2.1
  have spliced := behind.spliced
  rw [textOf_append, Utf8.size_append, ← Utf8.length_encode (textOf mid)] at ahead spliced
  rw [textOf_append, textOf_append, Utf8.encode_append, Utf8.encode_append]
  exact spliceFrom_skip ahead spliced

omit opened gap next in
/-- What ended the item before the first gap still does: it is the next word, or there is none
between the gaps. -/
theorem Grown.ends_between (ends : Ends (words (lineBroken false pre) (mid ++ post))) :
    Ends (words (lineBroken false pre) (mid ++ grown)) := by
  rw [words_append, ← lineBroken_append] at ends ⊢
  cases inner : words (lineBroken false pre) mid with
  | nil =>
    rw [inner] at ends
    exact behind.ends ends
  | cons w ws =>
    rw [inner] at ends
    exact (Ends.congr rfl).1 ends

/-- The items between two gaps stand before those that grow behind the second. -/
theorem Grown.items_between : ∃ items' close',
    words (lineBroken false pre) (mid ++ grown) = wordsOf items' ++ close' :: back ∧
    ItemsBefore [close'] items' ∧ close'.token = .mark .parenR ∧
    (items'.map fun i => i.spec.toImport).Perm
      ((items.drop i).map (fun i => i.spec.toImport) ++ added) := by
  obtain ⟨inner, rest, middle⟩ := gap.exists_inner next
  obtain ⟨items', close', same, before, closes, perm⟩ := behind.items
  refine ⟨inner ++ items', close', ?_, ?_, closes, ?_⟩
  · rw [words_append, ← lineBroken_append, middle, same, Grammar.wordsOf_append, List.append_assoc]
  · have all := opened.before
    rw [← List.take_append_drop i items, Grammar.itemsBefore_append, rest,
      Grammar.itemsBefore_append] at all
    refine Grammar.itemsBefore_append.2 ⟨all.2.1.of_ends fun ends => ?_, before⟩
    have kept := behind.ends
    rw [opened.words_behind next, same] at kept
    have head (items : List Item) (close : Word) :
        (wordsOf items ++ [close]).head? = (wordsOf items ++ close :: back).head? := by
      cases wordsOf items <;> rfl
    exact (Ends.congr (head _ _)).2 (kept ((Ends.congr (head _ _)).1 ends))
  · rw [rest, List.map_append, List.map_append, List.append_assoc]
    exact perm.append_left _

/-- What stands between two gaps is kept. -/
theorem Grown.skip : Grown segments items back pre (mid ++ post) i rs added (mid ++ grown) where
  spliced := behind.spliced_between
  lexed := lexedBefore_append.2 ⟨opened.lexed_between gap next _, behind.lexed⟩
  real s member := by
    rcases List.mem_append.1 member with kept | later
    · exact opened.real s (by rw [gap.whole]; simp [kept])
    · exact behind.real s later
  ends := behind.ends_between
  items := behind.items_between opened gap next

end Between

/-- A replacement that puts items for imports at a gap of a block. -/
def Adds (segments : List Segment) (front : List Word) (items : List Item) (r : Replacement)
    (imports : List Import) : Prop :=
  ∃ pre post j new fresh after, Gap segments front items pre post j ∧
    Filling (lineBroken false pre) post imports new fresh after ∧
    r = ⟨⟨Utf8.size (textOf pre), Utf8.size (textOf pre)⟩, Utf8.encode (textOf new)⟩

/-- Replacements in order that put items at gaps make the block grow by all their imports. -/
theorem exists_grown {rs : List Replacement} {imports : Replacement → List Import}
    (sorted : rs.Pairwise fun a b => a.span.start < b.span.start)
    (adds : ∀ r ∈ rs, Adds segments front items r (imports r)) {pre post : List Segment} {j : Nat}
    (gap : Gap segments front items pre post j)
    (ahead : ∀ r ∈ rs, Utf8.size (textOf pre) ≤ r.span.start) :
    ∃ grown, Grown segments items back pre post j rs (rs.flatMap imports) grown := by
  induction rs generalizing pre post j with
  | nil => exact ⟨post, Grown.nil opened gap⟩
  | cons r rs ih =>
    obtain ⟨less, sorted⟩ := List.pairwise_cons.1 sorted
    obtain ⟨here, others⟩ := List.forall_mem_cons.1 adds
    obtain ⟨pre', post', j', new, fresh, after, next, filling, same⟩ := here
    have start := ahead r List.mem_cons_self
    rw [same] at start
    obtain ⟨mid, rfl, rfl⟩ := exists_between gap.whole next.whole opened.scanned.text_ne_nil start
    have later : ∀ s ∈ rs, Utf8.size (textOf (pre ++ mid)) ≤ s.span.start := by
      intro s member
      have := less s member
      rw [same] at this
      exact this.le
    obtain ⟨grown, behind⟩ := ih sorted others next later
    have inserted := behind.insert next filling
    rw [← same] at inserted
    exact ⟨mid ++ (new ++ grown), inserted.skip opened gap next⟩

end Walk

end Marginalia.Edit
