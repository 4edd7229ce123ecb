/-
Module: Marginalia.Proofs.Go.TreeOrder
Purpose: In every syntax tree the children of a node lie within it, one behind the other, and the
  whole tree lies in its text.
Main exports:
  Sits.everywhere, Settled, Places.settled_locate, Row.weave, sound_attach, Tree.parse?_sound,
  SourceUnit.parse_nests, Tree.text_ne_empty, SourceUnit.package_ne_empty
-/
import Marginalia.Proofs.Go.Grammar.SourceFile
import Marginalia.Proofs.Go.WordOrder

namespace Marginalia.Go

open Grammar

/-! ### Drafts in their places -/

namespace Grammar

variable {hi lo : Nat} {t c : Draft}

theorem Sits.child (sits : Sits hi lo t) (member : c ∈ t.children) : Sits hi lo c := by
  have inside := sits.counted.within c member
  exact ⟨inside.1.trans sits.start_le, sits.lt_stop.trans_le inside.2, sits.sound.child c member⟩

/-- All drafts in a draft stand where it may stand. -/
theorem Sits.everywhere (sits : Sits hi lo t) : Everywhere (Sits hi lo) t := by
  induction sits.sound with
  | intro _ _ ih => exact .intro sits fun c member => ih c member (sits.child member)

end Grammar

/-- What other places give each node they give the whole tree. -/
theorem Everywhere.locate {Place Other : Type} {p : Node Place → Prop} {q : Node Other → Prop}
    {start stop : Place → Other} (each : ∀ t, p t → q (t.locate start stop)) {t : Node Place}
    (every : Everywhere p t) : Everywhere q (t.locate start stop) := by
  induction every with
  | @intro t here _ ih =>
    refine .intro (each t here) ?_
    rw [Node.children_locate]
    exact List.forall_mem_map.2 ih

/-- A lexeme lies before a node, behind it or within it. -/
def Lexeme.ClearOf (l : Lexeme) (t : Tree) : Prop :=
  l.stop.offset ≤ t.start.offset ∨ t.stop.offset ≤ l.start.offset ∨
    (t.start.offset ≤ l.start.offset ∧ l.stop.offset ≤ t.stop.offset)

/-- What a node is before comments are put below it. -/
structure Settled (comments : List Lexeme) (t : Tree) : Prop where
  orderly : t.Orderly
  starLeads : t.StarLeads
  clear : ∀ l ∈ comments, l.ClearOf t

namespace Places

variable {lo hi count : Nat} {start stop : Nat → Point} {t : Draft}

/-- Of two drafts the one with the greater numbers comes first. -/
theorem stop_le_start (places : Places lo hi count start stop) {a b : Draft}
    (front : Sits count 0 a) (back : Sits count 0 b) (less : b.start < a.stop) :
    (a.locate start stop).stop.offset ≤ (b.locate start stop).start.offset := by
  rw [Node.stop_locate, Node.start_locate]
  exact places.ordered _ _ back.lt_start less front.stop_le

theorem orderly_locate (places : Places lo hi count start stop) (sits : Sits count 0 t) :
    (t.locate start stop).Orderly := by
  constructor
  · rw [Node.start_locate, Node.stop_locate]
    exact (places.start_lt_stop sits.lt_stop sits.forward sits.start_le).le
  · rw [Node.children_locate, List.forall_mem_map]
    intro c member
    have child := sits.child member
    have inside := sits.counted.within c member
    refine ⟨?_, ?_⟩
    · show (t.locate start stop).start.offset ≤ (c.locate start stop).start.offset
      rw [Node.start_locate, Node.start_locate]
      exact places.start_le child.lt_start inside.1 sits.start_le
    · show (c.locate start stop).stop.offset ≤ (t.locate start stop).stop.offset
      rw [Node.stop_locate, Node.stop_locate]
      exact places.stop_le sits.lt_stop inside.2 child.stop_le
  · rw [Node.children_locate, List.pairwise_map]
    exact sits.counted.ordered.imp_of_mem fun first second less =>
      places.stop_le_start (sits.child first) (sits.child second) less

theorem clearOf_locate (places : Places lo hi count start stop) (sits : Sits count 0 t)
    {l : Lexeme} (apart : ∀ n, 0 < n → n ≤ count →
      l.stop.offset ≤ (start n).offset ∨ (stop n).offset ≤ l.start.offset) :
    l.ClearOf (t.locate start stop) := by
  have first := places.within t.start sits.lt_start sits.start_le
  have last := places.within t.stop sits.lt_stop sits.stop_le
  rw [Lexeme.ClearOf, Node.start_locate, Node.stop_locate]
  -- between the first lexeme of the node and the last one is inside
  rcases apart t.start sits.lt_start sits.start_le with before | behind
  · exact .inl before
  · rcases apart t.stop sits.lt_stop sits.stop_le with before | behind'
    · exact .inr (.inr ⟨first.2.1.le.trans behind, before.trans last.2.1.le⟩)
    · exact .inr (.inl behind')

/-- Other places do not move the stars. -/
theorem starLeads_locate (leads : t.StarLeads) : (t.locate start stop).StarLeads := by
  intro field
  rw [Node.kind_locate] at field
  rw [Node.children_locate, List.pairwise_map]
  refine (leads field).imp fun {a b} leads => ?_
  rwa [Node.role_locate, Node.kind_locate]

theorem settled_locate (places : Places lo hi count start stop) (sits : Sits count 0 t)
    {comments : List Lexeme} (apart : ∀ l ∈ comments, ∀ n, 0 < n → n ≤ count →
      l.stop.offset ≤ (start n).offset ∨ (stop n).offset ≤ l.start.offset) :
    Everywhere (Settled comments) (t.locate start stop) :=
  sits.everywhere.locate fun _ sits => ⟨places.orderly_locate sits,
    starLeads_locate sits.sound.here.2, fun l member => places.clearOf_locate sits (apart l member)⟩

/-- Drafts one behind the other become trees one behind the other. -/
theorem row (places : Places lo hi count start stop) {ts : List Draft}
    (series : Series count 0 ts) : Row lo hi (ts.map (Node.locate start stop)) := by
  constructor
  · rw [List.forall_mem_map]
    intro t member
    have sits := series.within t member
    rw [Node.start_locate, Node.stop_locate]
    exact ⟨(places.within _ sits.lt_start sits.start_le).1,
      (places.within _ sits.lt_stop sits.stop_le).2.2⟩
  · rw [List.pairwise_map]
    exact series.ordered.imp_of_mem fun first second less =>
      places.stop_le_start (series.within _ first) (series.within _ second) less
  · rw [List.forall_mem_map]
    intro t member
    exact (series.within t member).everywhere.locate fun _ sits =>
      ⟨places.orderly_locate sits, starLeads_locate sits.sound.here.2⟩

end Places

/-! ### Comments between nodes -/

/-- Where a test that has failed fails for good, nothing behind the first failure passes it. -/
theorem not_of_mem_dropWhile {α : Type} {r : α → α → Prop} {p : α → Bool} {xs : List α}
    (ordered : xs.Pairwise r) (lasts : ∀ a b, r a b → p b → p a) :
    ∀ x ∈ xs.dropWhile p, ¬p x := by
  induction xs with
  | nil => simp
  | cons x xs ih =>
    obtain ⟨first, others⟩ := List.pairwise_cons.1 ordered
    rw [List.dropWhile_cons]
    split
    · exact ih others
    · rename_i failed
      exact List.forall_mem_cons.2
        ⟨failed, fun y later passed => failed (lasts x y (first y later) passed)⟩

/-- Lexemes in order fall into those before the first that fails a test, which pass it, and others.
None of these passes the test when whatever stands before one that passes does too. -/
theorem Lined.exists_span {lo hi : Nat} {ls : List Lexeme} (lined : Lined lo hi ls)
    {p : Lexeme → Bool} (lasts : ∀ a b : Lexeme, a.start.offset ≤ b.start.offset →
      a.stop.offset ≤ b.stop.offset → p b → p a) :
    ∃ front back, ls.span p = (front, back) ∧ ls = front ++ back ∧
      (∀ l ∈ front, p l) ∧ ∀ l ∈ back, ¬p l := by
  have rising : ls.Pairwise fun a b =>
      a.start.offset ≤ b.start.offset ∧ a.stop.offset ≤ b.stop.offset := by
    refine lined.ordered.imp_of_mem fun {a b} first second le => ?_
    have := (lined.within a first).2.1
    have := (lined.within b second).2.1
    omega
  exact ⟨_, _, List.span_eq_takeWhile_dropWhile _ _, List.takeWhile_append_dropWhile.symm,
    fun l member => List.mem_takeWhile_imp member,
    not_of_mem_dropWhile rising fun a b rises => lasts a b rises.1 rises.2⟩

/-- Comments fall into those before a node, those within it and those behind it. -/
theorem exists_weave_cons {lo hi : Nat} {comments : List Lexeme} (lined : Lined lo hi comments)
    {t : Tree} (clear : ∀ l ∈ comments, l.ClearOf t) :
    ∃ before inside after, comments = before ++ (inside ++ after) ∧
      Lined lo t.start.offset before ∧ Lined t.start.offset t.stop.offset inside ∧
      Lined t.stop.offset hi after ∧ ∀ ts, Tree.weave comments (t :: ts) =
        before.map Tree.ofComment ++ Tree.attach inside t :: Tree.weave after ts := by
  obtain ⟨before, others, cut, rfl, early, late⟩ :=
    lined.exists_span (p := fun l => decide (l.stop.offset ≤ t.start.offset))
      fun a b _ stop => by simpa using stop.trans
  have front := lined.sublist (List.sublist_append_left before others)
  have back := lined.sublist (List.sublist_append_right before others)
  obtain ⟨inside, after, cut', rfl, near, far⟩ :=
    back.exists_span (p := fun l => decide (l.start.offset < t.stop.offset))
      fun a b start _ => by simpa using start.trans_lt
  have middle := back.sublist (List.sublist_append_left inside after)
  have last := back.sublist (List.sublist_append_right inside after)
  -- what ends behind the start of the node and starts before its end is not beside it
  have within : ∀ l ∈ inside, t.start.offset ≤ l.start.offset ∧ l.stop.offset ≤ t.stop.offset := by
    intro l member
    have among : l ∈ inside ++ after := List.mem_append_left _ member
    have started : t.start.offset < l.stop.offset := by simpa using late l among
    have unstopped : l.start.offset < t.stop.offset := by simpa using near l member
    rcases clear l (List.mem_append_right _ among) with first | last | within
    · omega
    · omega
    · exact within
  refine ⟨before, inside, after, rfl, ?_, ?_, ?_, fun ts => ?_⟩
  · exact front.between (fun l member => (front.within l member).1) fun l member => by
      simpa using early l member
  · exact middle.between (fun l member => (within l member).1) fun l member => (within l member).2
  · exact last.between (fun l member => by simpa using far l member)
      fun l member => (last.within l member).2.2
  · rw [Tree.weave, cut]
    dsimp only
    rw [cut']

/-- Nothing stands below a comment. -/
theorem Everywhere.comment {p : Tree → Prop} {l : Lexeme} (here : p (Tree.ofComment l)) :
    Everywhere p (Tree.ofComment l) :=
  .intro here (List.forall_mem_nil _)

theorem row_comments {lo hi : Nat} {ls : List Lexeme} (lined : Lined lo hi ls) :
    Row lo hi (ls.map Tree.ofComment) := by
  refine ⟨List.forall_mem_map.2 fun l member => ?_, List.pairwise_map.2 lined.ordered,
    List.forall_mem_map.2 fun l member => ?_⟩
  · have within := lined.within l member
    exact ⟨within.1, within.2.2⟩
  · have forward := (lined.within l member).2.1.le
    exact .comment ⟨⟨forward, List.forall_mem_nil _, .nil⟩, fun _ => .nil⟩

namespace Row

variable {lo mid hi : Nat} {ts us : List Tree}

theorem append (front : Row lo mid ts) (back : Row mid hi us) (left : lo ≤ mid)
    (right : mid ≤ hi) : Row lo hi (ts ++ us) := by
  refine ⟨List.forall_mem_append.2 ⟨fun t member => ?_, fun t member => ?_⟩,
    List.pairwise_append.2 ⟨front.ordered, back.ordered, fun a first b second =>
      (front.within a first).2.trans (back.within b second).1⟩,
    List.forall_mem_append.2 ⟨front.sound, back.sound⟩⟩
  · exact ⟨(front.within t member).1, (front.within t member).2.trans right⟩
  · exact ⟨left.trans (back.within t member).1, (back.within t member).2⟩

theorem one {t : Tree} (sound : Sound t) : Row t.start.offset t.stop.offset [t] :=
  ⟨List.forall_mem_singleton.2 ⟨le_rfl, le_rfl⟩, List.pairwise_singleton _ _,
    List.forall_mem_singleton.2 sound⟩

/-- Comments can be put between trees, and into them where that keeps them sound. -/
theorem weave (row : Row lo hi ts) (forward : lo ≤ hi) {comments : List Lexeme}
    (lined : Lined lo hi comments) (clear : ∀ t ∈ ts, ∀ l ∈ comments, l.ClearOf t)
    (attached : ∀ t ∈ ts, ∀ inside, inside.Sublist comments →
      Lined t.start.offset t.stop.offset inside → Sound (Tree.attach inside t)) :
    Row lo hi (Tree.weave comments ts) := by
  induction ts generalizing lo comments with
  | nil => exact row_comments lined
  | cons t ts ih =>
    obtain ⟨clear_t, clear_ts⟩ := List.forall_mem_cons.1 clear
    obtain ⟨attached_t, attached_ts⟩ := List.forall_mem_cons.1 attached
    obtain ⟨before, inside, after, rfl, first, within, last, woven⟩ :=
      exists_weave_cons lined clear_t
    have bounds := row.within t List.mem_cons_self
    have length := row.forward List.mem_cons_self
    have inner : inside.Sublist (before ++ (inside ++ after)) :=
      (List.sublist_append_left _ _).trans (List.sublist_append_right _ _)
    have behind : after.Sublist (before ++ (inside ++ after)) :=
      (List.sublist_append_right _ _).trans (List.sublist_append_right _ _)
    have middle := one (attached_t inside inner within)
    rw [Tree.start_attach, Tree.stop_attach] at middle
    have others := ih row.tail bounds.2 last
      (fun u member l among => clear_ts u member l (behind.subset among))
      fun u member inside sub => attached_ts u member inside (sub.trans behind)
    -- the comments before the tree, the tree with those within it, and the others between the rest
    rw [woven]
    exact (row_comments first).append (middle.append others length bounds.2) bounds.1
      (length.trans bounds.2)

end Row

/-- Comments do not move the stars either: one is neither a type nor a star. -/
theorem Tree.pairwise_weave {ts : List Tree} {comments : List Lexeme}
    (leads : ts.Pairwise fun a b => a.role = some .type → b.kind ≠ .mark .star) :
    (weave comments ts).Pairwise fun a b => a.role = some .type → b.kind ≠ .mark .star := by
  have front : ∀ ls : List Lexeme, ∀ a ∈ ls.map ofComment, a.role ≠ some .type := by
    intro ls a member
    obtain ⟨l, -, rfl⟩ := List.mem_map.1 member
    exact (Option.some_ne_none _).symm
  have alone : ∀ ls : List Lexeme, (ls.map ofComment).Pairwise
      fun a b => a.role = some .type → b.kind ≠ .mark .star := fun ls =>
    List.pairwise_of_forall_mem_list fun a member b _ same => absurd same (front ls a member)
  induction ts generalizing comments with
  | nil => exact alone comments
  | cons t ts ih =>
    obtain ⟨first, others⟩ := List.pairwise_cons.1 leads
    rw [weave, List.pairwise_append, List.pairwise_cons]
    refine ⟨alone _, ⟨fun x later same => ?_, ih others⟩,
      fun a member b _ same => absurd same (front _ a member)⟩
    rcases mem_weave later with ⟨l, rfl⟩ | ⟨u, member, inside, rfl⟩
    · exact Kind.noConfusion
    · rw [role_attach] at same
      rw [kind_attach]
      exact first u member same

/-- Comments that lie within a tree can be put into it when the ends of no node cut one. -/
theorem sound_attach {comments inside : List Lexeme} {t : Tree}
    (settled : Everywhere (Settled comments) t) (part : inside.Sublist comments)
    (lined : Lined t.start.offset t.stop.offset inside) : Sound (Tree.attach inside t) := by
  induction settled generalizing inside with
  | @intro t here below ih =>
    have row : Row t.start.offset t.stop.offset t.children :=
      ⟨here.orderly.within, here.orderly.ordered, fun c member =>
        (below c member).imp fun _ settled => ⟨settled.orderly, settled.starLeads⟩⟩
    have woven := row.weave here.orderly.forward lined
      (fun c member l among => (below c member).here.clear l (part.subset among))
      fun c member inside sub => ih c member (sub.trans part)
    obtain ⟨kind, role, start, stop, cs⟩ := t
    exact .intro ⟨⟨here.orderly.forward, woven.within, woven.ordered⟩,
      fun field => Tree.pairwise_weave (here.starLeads field)⟩ woven.sound

/-! ### Syntax trees -/

/-- A syntax tree is made of drafts that stand in order among the words of its text. -/
theorem Tree.exists_drafts {source : List Char} {tree : Tree}
    (read : Tree.parse? source = some tree) :
    ∃ segments drafts, textOf segments = source ∧ Scanned segments ∧
      Series (words false segments).length 0 drafts ∧ tree = treeOf segments drafts := by
  obtain ⟨segments, rfl, scanned⟩ := exists_scanned source
  obtain ⟨-, drafts, parsed, rfl⟩ := (parse?_eq scanned).1 read
  exact ⟨segments, drafts, rfl, scanned, lists_sourceFile _ _ (length_signs _) _ _ parsed, rfl⟩

/-- In every syntax tree the children of a node lie within it, one behind the other, the star of an
embedded field stands before its type, and the tree ends within the text. -/
theorem Tree.parse?_sound {source : List Char} {tree : Tree}
    (read : Tree.parse? source = some tree) :
    Sound tree ∧ tree.stop.offset ≤ Utf8.size source := by
  obtain ⟨segments, drafts, rfl, scanned, series, rfl⟩ := Tree.exists_drafts read
  have lined := lined_placed scanned.text_ne_nil ⟨0, 0⟩
  rw [Point.offset_after, Nat.zero_add] at lined
  -- the root ends with the last lexeme, whatever it is
  have inside := lined.last_le ⟨0, 0⟩ (Nat.zero_le _)
  have bounded := lined.between (fun _ _ => Nat.zero_le _) (lined.stop_le_last ⟨0, 0⟩)
  have comments := bounded.sublist (List.filter_sublist (p := fun l => l.token == .comment))
  have row := bounded.places.row series
  rw [treeOf, Node.locateAll_eq_map]
  generalize ((placed ⟨0, 0⟩ segments).getLast?.map (·.stop)).getD ⟨0, 0⟩ = stop at *
  refine ⟨sound_attach (.intro ⟨⟨Nat.zero_le _, row.within, row.ordered⟩, ?_, ?_⟩ ?_)
    (List.Sublist.refl _) comments, inside⟩
  · exact fun field => Kind.noConfusion field
  · exact fun l member => .inr (.inr ⟨Nat.zero_le _, (comments.within l member).2.2⟩)
  · refine List.forall_mem_map.2 fun t member => bounded.places.settled_locate
      (series.within t member) fun l among n positive le => ?_
    obtain ⟨placed, comment⟩ := List.mem_filter.1 among
    exact bounded.comment_apart placed (by simpa using comment) positive le

/-- The spans that are recorded of a source file that is read nest in it. -/
theorem SourceUnit.parse_nests {path : Path} {source : String} {unit : SourceUnit}
    (read : SourceUnit.parse path source = .ok unit) :
    Nests 0 (Utf8.size unit.source.toList) unit.spans := by
  unfold SourceUnit.parse at read
  split at read
  · rename_i tree parsed
    obtain ⟨sound, inside⟩ := Tree.parse?_sound parsed
    rw [SourceUnit.source_ofTree read]
    exact (SourceUnit.ofTree_nests sound read).mono le_rfl inside
  · cases read

/-! ### Texts of nodes -/

/-- What comments do not change and all have holds throughout a tree with comments. -/
theorem Everywhere.attach {p : Tree → Prop} (comment : ∀ l, p (Tree.ofComment l))
    (same : ∀ comments t, p t → p (Tree.attach comments t)) {t : Tree} (every : Everywhere p t)
    (comments : List Lexeme) : Everywhere p (Tree.attach comments t) := by
  induction every generalizing comments with
  | intro here _ ih =>
    refine .intro (same comments _ here) ?_
    rw [Tree.children_attach]
    intro x member
    rcases Tree.mem_weave member with ⟨l, rfl⟩ | ⟨c, child, inside, rfl⟩
    · exact .comment (comment l)
    · exact ih c child inside

/-- Below the root of a syntax tree every node has some text, comments apart. -/
theorem Tree.text_ne_empty {source : String} {tree : Tree}
    (read : Tree.parse? source.toList = some tree) :
    ∀ c ∈ tree.children, Everywhere (fun t => t.kind ≠ .comment → t.text source ≠ "") c := by
  obtain ⟨segments, drafts, text, scanned, series, rfl⟩ := Tree.exists_drafts read
  obtain rfl : source = String.ofList (textOf segments) := by rw [text, String.ofList_toList]
  intro c member
  rw [treeOf, Tree.children_attach, Node.children, Node.locateAll_eq_map] at member
  rcases Tree.mem_weave member with ⟨l, rfl⟩ | ⟨u, among, inside, rfl⟩
  · exact .comment fun other => absurd rfl other
  · obtain ⟨draft, drafted, rfl⟩ := List.mem_map.1 among
    refine Everywhere.attach (fun l other => absurd rfl other) (fun comments t filled => ?_)
      ((series.within draft drafted).everywhere.locate fun t sits _ => ?_) inside
    · rwa [Tree.kind_attach, Tree.text_attach]
    · have filled := text_words_ne_empty scanned sits.lt_stop sits.forward sits.start_le
      cases t
      exact filled

/-- A source file that can be read has a package name. -/
theorem SourceUnit.package_ne_empty {path : Path} {source : String} {unit : SourceUnit}
    (read : SourceUnit.parse path source = .ok unit) : unit.package ≠ "" := by
  unfold SourceUnit.parse at read
  split at read
  · rename_i tree parsed
    unfold SourceUnit.ofTree at read
    dsimp only at read
    split at read
    · cases read
    · rename_i id found
      obtain ⟨clause, last, first⟩ := Option.bind_eq_some_iff.1 found
      have member := (List.mem_filter.1 (List.mem_of_getLast? last)).1
      have child : id ∈ clause.children := List.mem_of_find?_eq_some first
      have name : id.kind = .packageIdentifier := by simpa using List.find?_some first
      obtain rfl := Except.ok.inj read
      exact ((Tree.text_ne_empty parsed clause member).child id child).here
        (by rw [name]; exact Kind.noConfusion)
  · cases read

end Marginalia.Go
