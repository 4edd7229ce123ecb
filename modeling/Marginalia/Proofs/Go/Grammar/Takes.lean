/-
Module: Marginalia.Proofs.Go.Grammar.Takes
Purpose: Where the drafts that a reader gives stand among the lexemes that it takes.
Main exports:
  Takes, Still, Shrinks, Advances, Node.Counted, Sits, Series, Gives, Lists, Fills, gives_node,
  fills_between, takes_ended
-/
import Marginalia.Go.Grammar.Type
import Marginalia.Proofs.Go.RecordedSpan

namespace Marginalia.Go

/-- The children of a draft lie within it, each behind the one before. Lexemes are numbered from the
end, so that numbers fall from the front to the back. -/
structure Node.Counted (t : Node Nat) : Prop where
  forward : t.stop ≤ t.start
  within : ∀ c ∈ t.children, c.start ≤ t.start ∧ t.stop ≤ c.stop
  ordered : t.children.Pairwise fun a b => b.start < a.stop

namespace Grammar

/-! ### What readers give and leave -/

/-- Whatever a reader gives when `hi` lexemes are left has a property, together with the number of
lexemes that it leaves. -/
def Takes {α : Type} (hi : Nat) (property : Nat → α → Prop) (reader : Reading α) : Prop :=
  ∀ c, c.length = hi → ∀ a rest, reader c = some (a, rest) → property rest.length a

namespace Takes

variable {α β : Type} {hi : Nat} {p p' : Nat → α → Prop} {q : Nat → β → Prop}

theorem pure {a : α} (holds : p hi a) : Takes hi p (Pure.pure a : Reading α) := by
  rintro c rfl b rest ⟨⟩
  exact holds

theorem failure : Takes hi p (Alternative.failure : Reading α) := by
  rintro c - b rest ⟨⟩

theorem bind {reader : Reading α} {next : α → Reading β} (first : Takes hi p reader)
    (others : ∀ mid a, p mid a → Takes mid q (next a)) : Takes hi q (reader >>= next) := by
  intro c left b rest read
  obtain ⟨⟨a, mid⟩, head, tail⟩ := Option.bind_eq_some_iff.1 read
  exact others mid.length a (first c left a mid head) mid rfl b rest tail

theorem mono {reader : Reading α} (takes : Takes hi p reader) (weaker : ∀ lo a, p lo a → p' lo a) :
    Takes hi p' reader :=
  fun c left a rest read => weaker _ a (takes c left a rest read)

theorem orElse {first second : Reading α} (left : Takes hi p first) (right : Takes hi p second) :
    Takes hi p (first <|> second) := by
  intro c length a rest read
  rcases (Option.orElse_eq_some _ _ _).1 read with read | ⟨-, read⟩
  · exact left c length a rest read
  · exact right c length a rest read

/-- Either of two readers may come before the rest. -/
theorem either {c : Prop} [Decidable c] {first second : Reading α} {next : α → Reading β}
    (left : Takes hi p first) (right : Takes hi p second)
    (others : ∀ mid a, p mid a → Takes mid q (next a)) :
    Takes hi q (if c then first >>= next else second >>= next) := by
  split
  · exact left.bind others
  · exact right.bind others

/-- A test that may stop the reader does not matter. -/
theorem test {c : Prop} [Decidable c] {next : PUnit → Reading α} (others : Takes hi p (next ⟨⟩)) :
    Takes hi p (if c then Alternative.failure >>= next else next ⟨⟩) := by
  split
  · have stopped : Takes hi (fun _ _ => False) (Alternative.failure : Reading PUnit) := failure
    exact stopped.bind fun _ _ absurd => absurd.elim
  · exact others

end Takes

section Counts

variable {α β : Type}

/-- A reader that only looks. -/
def Still (reader : Reading α) : Prop := ∀ hi, Takes hi (fun lo _ => lo = hi) reader

/-- A reader that leaves no more than there was. -/
def Shrinks (reader : Reading α) : Prop := ∀ hi, Takes hi (fun lo _ => lo ≤ hi) reader

/-- A reader that takes at least one lexeme. -/
def Advances (reader : Reading α) : Prop := ∀ hi, Takes hi (fun lo _ => lo < hi) reader

theorem Takes.still {hi : Nat} {q : Nat → β → Prop} {reader : Reading α} {next : α → Reading β}
    (looks : Still reader) (others : ∀ a, Takes hi q (next a)) : Takes hi q (reader >>= next) :=
  (looks hi).bind fun _ a same => same ▸ others a

theorem Still.shrinks {reader : Reading α} (looks : Still reader) : Shrinks reader :=
  fun hi => (looks hi).mono fun _ _ same => same.le

theorem Advances.shrinks {reader : Reading α} (advances : Advances reader) : Shrinks reader :=
  fun hi => (advances hi).mono fun _ _ less => less.le

theorem Still.pure (a : α) : Still (Pure.pure a : Reading α) :=
  fun _ => .pure rfl

theorem Still.bind {reader : Reading α} {next : α → Reading β} (first : Still reader)
    (others : ∀ a, Still (next a)) : Still (reader >>= next) :=
  fun hi => .still first fun a => others a hi

theorem Shrinks.pure (a : α) : Shrinks (Pure.pure a : Reading α) :=
  fun _ => .pure le_rfl

theorem Shrinks.failure : Shrinks (Alternative.failure : Reading α) :=
  fun _ => .failure

theorem Shrinks.bind {reader : Reading α} {next : α → Reading β} (first : Shrinks reader)
    (others : ∀ a, Shrinks (next a)) : Shrinks (reader >>= next) :=
  fun hi => (first hi).bind fun mid a le => (others a mid).mono fun _ _ le' => le'.trans le

theorem Advances.failure : Advances (Alternative.failure : Reading α) :=
  fun _ => .failure

/-- What follows a reader that takes a lexeme need not take another. -/
theorem Advances.bind {reader : Reading α} {next : α → Reading β} (first : Advances reader)
    (others : ∀ a, Shrinks (next a)) : Advances (reader >>= next) :=
  fun hi => (first hi).bind fun mid a less => (others a mid).mono fun _ _ le => le.trans_lt less

/-- What follows a reader that may take nothing takes a lexeme. -/
theorem Shrinks.advance {reader : Reading α} {next : α → Reading β} (first : Shrinks reader)
    (others : ∀ a, Advances (next a)) : Advances (reader >>= next) :=
  fun hi => (first hi).bind fun mid a le => (others a mid).mono fun _ _ less => less.trans_le le

theorem Advances.orElse {first second : Reading α} (left : Advances first)
    (right : Advances second) : Advances (first <|> second) :=
  fun hi => (left hi).orElse (right hi)

theorem Shrinks.orElse {first second : Reading α} (left : Shrinks first)
    (right : Shrinks second) : Shrinks (first <|> second) :=
  fun hi => (left hi).orElse (right hi)

end Counts

/-! ### One lexeme -/

theorem still_get : Still (get : Reading Cursor) := by
  rintro hi c rfl a rest ⟨⟩
  rfl

/-- The cursor that is seen has as many lexemes as are left. -/
theorem takes_get (hi : Nat) : Takes hi (fun lo c => lo = hi ∧ c.length = hi) get := by
  rintro c rfl a rest ⟨⟩
  exact ⟨rfl, rfl⟩

theorem still_peek (line : Bool) : Still (peek line) := by
  refine still_get.bind fun c => ?_
  split
  · exact .pure _
  · exact .pure _

theorem still_atMark (line : Bool) (m : Mark) : Still (atMark line m) :=
  (still_peek line).bind fun _ => .pure _

theorem still_atParameterEnd : Still atParameterEnd :=
  (still_atMark _ _).bind fun _ => (still_atMark _ _).bind fun _ => .pure _

theorem still_atFieldEnd : Still atFieldEnd := by
  refine (still_peek _).bind fun token => ?_
  split <;> exact .pure _

theorem still_passNewline : Still passNewline := by
  rintro hi (_ | ⟨l, c⟩) rfl a rest ⟨⟩
  · rfl
  · rfl

/-- The lexeme that is taken has the number of those that were left. -/
theorem takes_take (hi : Nat) : Takes hi (fun lo l => lo + 1 = hi ∧ l.number = hi) take := by
  rintro (_ | ⟨l, c⟩) rfl a rest read
  · cases read
  · cases read
    exact ⟨rfl, rfl⟩

theorem advances_take : Advances take :=
  fun hi => (takes_take hi).mono fun _ _ taken => by omega

theorem takes_lastNumber (hi : Nat) :
    Takes hi (fun lo number => lo = hi ∧ number = hi + 1) lastNumber :=
  (takes_get hi).bind fun lo c ⟨same, length⟩ => .pure ⟨same, by omega⟩

/-! ### Drafts and lists of drafts -/

/-- A draft that stands where at most `hi` lexemes are left before it and more than `lo` with its
last one. In it children are in order, and the star of an embedded field leads. -/
structure Sits (hi lo : Nat) (t : Draft) : Prop where
  start_le : t.start ≤ hi
  lt_stop : lo < t.stop
  sound : Everywhere (fun t => t.Counted ∧ t.StarLeads) t

theorem Sits.counted {hi lo : Nat} {t : Draft} (sits : Sits hi lo t) : t.Counted :=
  sits.sound.here.1

theorem Sits.forward {hi lo : Nat} {t : Draft} (sits : Sits hi lo t) : t.stop ≤ t.start :=
  sits.counted.forward

theorem Sits.lt_start {hi lo : Nat} {t : Draft} (sits : Sits hi lo t) : lo < t.start :=
  sits.lt_stop.trans_le sits.forward

theorem Sits.stop_le {hi lo : Nat} {t : Draft} (sits : Sits hi lo t) : t.stop ≤ hi :=
  sits.forward.trans sits.start_le

theorem Sits.lt {hi lo : Nat} {t : Draft} (sits : Sits hi lo t) : lo < hi :=
  sits.lt_start.trans_le sits.start_le

/-- A draft stands at its own numbers. -/
theorem Sits.tight {hi lo : Nat} {t : Draft} (sits : Sits hi lo t) : Sits t.start lo t :=
  ⟨le_rfl, sits.lt_stop, sits.sound⟩

theorem Sits.childless {hi lo start stop : Nat} (start_le : start ≤ hi) (lt_stop : lo < stop)
    (forward : stop ≤ start) (kind : Kind) (role : Option Role) :
    Sits hi lo (.node kind role start stop []) := by
  refine ⟨start_le, lt_stop, .intro ⟨⟨forward, ?_, .nil⟩, fun _ => .nil⟩ ?_⟩
  · rintro c ⟨⟩
  · rintro c ⟨⟩

theorem Sits.withRole {hi lo : Nat} {t : Draft} (sits : Sits hi lo t) (role : Role) :
    Sits hi lo (t.withRole role) := by
  cases t
  refine ⟨sits.start_le, sits.lt_stop, ?_⟩
  rcases sits.sound with ⟨⟨counted, leads⟩, below⟩
  exact .intro ⟨⟨counted.forward, counted.within, counted.ordered⟩, leads⟩ below

/-- Drafts one behind the other, with at most `hi` lexemes left before the first and at least `lo`
behind the last. -/
inductive Series : Nat → Nat → List Draft → Prop where
  | nil {hi lo : Nat} (le : lo ≤ hi) : Series hi lo []
  | cons {hi mid lo : Nat} {t : Draft} {ts : List Draft} (first : Sits hi mid t)
    (others : Series mid lo ts) : Series hi lo (t :: ts)

namespace Series

variable {hi mid lo : Nat} {t : Draft} {ts us : List Draft}

theorem le (series : Series hi lo ts) : lo ≤ hi := by
  induction series with
  | nil le => exact le
  | cons first _ ih => exact ih.trans first.lt.le

theorem one (sits : Sits hi lo t) : Series hi lo [t] :=
  .cons sits (.nil le_rfl)

theorem append (front : Series hi mid ts) (back : Series mid lo us) : Series hi lo (ts ++ us) := by
  induction front with
  | nil le =>
    cases back with
    | nil le' => exact .nil (le'.trans le)
    | cons first others =>
      exact .cons ⟨first.start_le.trans le, first.lt_stop, first.sound⟩ others
  | cons first _ ih => exact .cons first (ih back)

theorem within (series : Series hi lo ts) : ∀ t ∈ ts, Sits hi lo t := by
  induction series with
  | nil => simp
  | cons first others ih =>
    have le := others.le
    have lt := first.lt
    refine List.forall_mem_cons.2 ⟨⟨first.start_le, le.trans_lt first.lt_stop, first.sound⟩, ?_⟩
    intro t member
    have sits := ih t member
    exact ⟨sits.start_le.trans lt.le, sits.lt_stop, sits.sound⟩

theorem ordered (series : Series hi lo ts) : ts.Pairwise fun a b => b.start < a.stop := by
  induction series with
  | nil => exact .nil
  | cons first others ih =>
    exact List.pairwise_cons.2
      ⟨fun t member => (others.within t member).start_le.trans_lt first.lt_stop, ih⟩

end Series

/-- A series in which lexemes were taken. -/
structure Filled (hi lo : Nat) (ts : List Draft) : Prop where
  series : Series hi lo ts
  lt : lo < hi

namespace Filled

variable {hi mid lo : Nat} {t : Draft} {ts us : List Draft}

theorem cons (first : Sits hi mid t) (others : Series mid lo ts) : Filled hi lo (t :: ts) :=
  ⟨.cons first others, others.le.trans_lt first.lt⟩

theorem one (sits : Sits hi lo t) : Filled hi lo [t] :=
  .cons sits (.nil le_rfl)

theorem append (front : Filled hi mid ts) (back : Series mid lo us) : Filled hi lo (ts ++ us) :=
  ⟨front.series.append back, back.le.trans_lt front.lt⟩

end Filled

/-- No star stands behind a type. -/
def StarsLead (ts : List Draft) : Prop :=
  ts.Pairwise fun a b => a.role = some .type → b.kind ≠ .mark .star

/-- A series of children makes a node that starts and stops with them. -/
theorem Filled.node {hi lo start stop : Nat} {ts : List Draft} (filled : Filled start (stop - 1) ts)
    (start_le : start ≤ hi) (lt_stop : lo < stop) {kind : Kind}
    (leads : kind = .fieldDeclaration → StarsLead ts) (role : Option Role) :
    Sits hi lo (.node kind role start stop ts) := by
  have inside := filled.series.within
  refine ⟨start_le, lt_stop, .intro ⟨⟨?_, ?_, filled.series.ordered⟩, leads⟩
    fun c member => (inside c member).sound⟩
  · have := filled.lt
    show stop ≤ start
    omega
  · intro c member
    exact ⟨(inside c member).start_le, Nat.le_of_pred_lt (inside c member).lt_stop⟩

/-- All that a reader gives is a draft in its place. -/
def Gives (reader : Reading Draft) : Prop := ∀ hi, Takes hi (Sits hi) reader

/-- All that a reader gives is a series. -/
def Lists (reader : Reading (List Draft)) : Prop := ∀ hi, Takes hi (Series hi) reader

/-- All that a reader gives is a series, and it takes lexemes. -/
def Fills (reader : Reading (List Draft)) : Prop := ∀ hi, Takes hi (Filled hi) reader

/-- All that a reader gives is a series, unless it declines. -/
def Offers (reader : Reading (Option (List Draft))) : Prop :=
  ∀ hi, Takes hi (fun lo result => Series hi lo (result.getD [])) reader

theorem Gives.advances {reader : Reading Draft} (gives : Gives reader) : Advances reader :=
  fun hi => (gives hi).mono fun _ _ sits => sits.lt

theorem Fills.advances {reader : Reading (List Draft)} (fills : Fills reader) : Advances reader :=
  fun hi => (fills hi).mono fun _ _ filled => filled.lt

theorem Gives.shrinks {reader : Reading Draft} (gives : Gives reader) : Shrinks reader :=
  gives.advances.shrinks

theorem Fills.lists {reader : Reading (List Draft)} (fills : Fills reader) : Lists reader :=
  fun hi => (fills hi).mono fun _ _ filled => filled.series

theorem Lists.shrinks {reader : Reading (List Draft)} (lists : Lists reader) : Shrinks reader :=
  fun hi => (lists hi).mono fun _ _ series => series.le

theorem Gives.orElse {first second : Reading Draft} (left : Gives first) (right : Gives second) :
    Gives (first <|> second) :=
  fun hi => (left hi).orElse (right hi)

theorem Gives.inRole {reader : Reading Draft} (gives : Gives reader) (role : Role) :
    Gives (inRole role reader) :=
  fun hi => (gives hi).bind fun _ _ sits => .pure (sits.withRole role)

theorem Gives.one {reader : Reading Draft} (gives : Gives reader) : Fills (one reader) :=
  fun hi => (gives hi).bind fun _ _ sits => .pure (.one sits)

/-! ### Nodes -/

theorem sits_leaf {hi lo : Nat} {l : Taken} (taken : lo + 1 = hi ∧ l.number = hi) (kind : Kind) :
    Sits hi lo (leaf kind l) := by
  obtain ⟨rfl, number⟩ := taken
  exact .childless number.le (Nat.lt_of_lt_of_eq (Nat.lt_succ_self lo) number.symm) le_rfl kind none

theorem gives_mark (m : Mark) : Gives (mark m) := by
  refine fun hi => (takes_take hi).bind fun lo l taken => ?_
  split
  · exact .pure (sits_leaf taken _)
  · exact .failure

theorem gives_word (kind : Kind) : Gives (word kind) := by
  refine fun hi => (takes_take hi).bind fun lo l taken => ?_
  split
  · exact .pure (sits_leaf taken _)
  · exact .failure

theorem gives_keyword (k : Keyword) : Gives (keyword k) := by
  refine fun hi => (takes_take hi).bind fun lo l taken => ?_
  split
  · exact .pure (sits_leaf taken _)
  · exact .failure

theorem gives_stringLiteral : Gives stringLiteral := by
  refine fun hi => (takes_take hi).bind fun lo l taken => ?_
  split
  · exact .pure (sits_leaf taken _)
  · exact .pure (sits_leaf taken _)
  · exact .failure

theorem lists_mark? (line : Bool) (m : Mark) : Lists (mark? line m) := by
  refine fun hi => .still (still_atMark line m) fun here => ?_
  split
  · exact (gives_mark m hi).bind fun _ _ sits => .pure (.one sits)
  · exact .pure (.nil le_rfl)

/-- A node stands where its children were read. -/
theorem gives_node_of (P : Nat → Nat → List Draft → Prop) {kind : Kind}
    {children : Reading (List Draft)} (read : ∀ hi, Takes hi (P hi) children)
    (make : ∀ hi lo ts, P hi lo ts →
      Filled hi lo ts ∧ (kind = .fieldDeclaration → StarsLead ts)) :
    Gives (node kind children) := by
  refine fun hi => (takes_get hi).bind fun mid c ⟨same, length⟩ => ?_
  cases c with
  | nil => exact .failure
  | cons l rest =>
    obtain rfl : mid = rest.length + 1 := same.trans length.symm
    refine (read _).bind fun lo ts each => (takes_lastNumber lo).bind
      fun last number ⟨kept, count⟩ => .pure ?_
    obtain ⟨filled, leads⟩ := make _ lo ts each
    rw [kept, count]
    exact filled.node same.le (Nat.lt_succ_self lo) leads none

/-- Only the nodes of fields have to be looked at for stars. -/
theorem gives_node {kind : Kind} (other : kind ≠ .fieldDeclaration)
    {children : Reading (List Draft)} (fills : Fills children) : Gives (node kind children) :=
  gives_node_of Filled fills fun _ _ _ filled => ⟨filled, fun same => absurd same other⟩

/-! ### Lists -/

theorem offers_terminator? : Offers terminator? := by
  refine fun hi => .still (still_peek _) fun token => ?_
  split
  · exact .still still_passNewline fun _ => .pure (.nil le_rfl)
  · exact (gives_mark _ hi).bind fun _ _ sits => .still still_passNewline fun _ =>
      .pure (.one sits)
  · exact (gives_mark _ hi).bind fun _ _ sits => .still still_passNewline fun _ =>
      .pure (.one sits)
  · exact .pure (.nil le_rfl)

section Repeat

variable {P : Nat → Nat → List Draft → Prop}
  (join : ∀ {hi mid lo ts us}, P hi mid ts → P mid lo us → P hi lo (ts ++ us))

include join

theorem takes_repeatUpTo {reader : Reading (Option (List Draft))}
    (each : ∀ hi, Takes hi (fun lo result => P hi lo (result.getD [])) reader) (n hi : Nat) :
    Takes hi (P hi) (repeatUpTo n reader) := by
  induction n generalizing hi with
  | zero => exact .failure
  | succ n ih =>
    refine .still still_get fun c => (each hi).bind fun mid result first => ?_
    split
    · exact .pure first
    · refine .still still_get fun c' => ?_
      split
      · exact (ih mid).bind fun _ _ others => .pure (join first others)
      · exact .failure

theorem takes_repeatWhile {reader : Reading (Option (List Draft))}
    (each : ∀ hi, Takes hi (fun lo result => P hi lo (result.getD [])) reader) (hi : Nat) :
    Takes hi (P hi) (repeatWhile reader) :=
  .still still_get fun c => takes_repeatUpTo join each (c.length + 1) hi

/-- Items with commas between them: `P` holds of what follows the first item, `Q` of the whole. -/
theorem takes_separated {Q : Nat → Nat → List Draft → Prop} (line : Bool)
    {item : Reading (List Draft)} (nil : ∀ hi, P hi hi [])
    (comma : ∀ hi, Takes hi (fun lo t => P hi lo [t]) (mark .comma))
    (each : ∀ hi, Takes hi (Q hi) item) (weaken : ∀ {hi lo ts}, Q hi lo ts → P hi lo ts)
    (extend : ∀ {hi mid lo ts us}, Q hi mid ts → P mid lo us → Q hi lo (ts ++ us)) (hi : Nat) :
    Takes hi (Q hi) (separated line item) := by
  refine (each hi).bind fun mid _ first => (takes_repeatWhile join (fun hi =>
    .still (still_atMark _ _) fun here => ?_) mid).bind
      fun _ _ others => .pure (extend first others)
  split
  · exact (comma hi).bind fun mid _ before => (each mid).bind fun _ _ behind =>
      .pure (join before (weaken behind))
  · exact .pure (nil hi)

end Repeat

theorem lists_repeatWhile {reader : Reading (Option (List Draft))} (each : Offers reader) :
    Lists (repeatWhile reader) :=
  takes_repeatWhile Series.append each

theorem fills_separated (line : Bool) {item : Reading (List Draft)} (fills : Fills item) :
    Fills (separated line item) :=
  takes_separated Series.append line (fun _ => .nil le_rfl)
    (fun hi => (gives_mark _ hi).mono fun _ _ => .one) fills Filled.series Filled.append

theorem fills_enclosed (opening closing : Mark) (bare : Bool) {item : Reading (List Draft)}
    (lists : Lists item) : Fills (enclosed opening closing bare item) := by
  refine fun hi => (gives_mark _ hi).bind fun start _ first =>
    .still (still_atMark _ _) fun here => ?_
  split
  · exact (gives_mark _ start).bind fun mid _ comma => (gives_mark _ mid).bind fun _ _ last =>
      .pure (.cons first (.cons comma (.one last)))
  · refine (lists_repeatWhile (fun hi => .still (still_atMark _ _) fun here => ?_) start).bind
      fun mid _ each => (gives_mark _ mid).bind fun _ _ last =>
        .pure ((Filled.cons first each).append (.one last))
    split
    · exact .pure (.nil le_rfl)
    · refine (lists hi).bind fun mid _ each => .still (still_atMark _ _) fun here => ?_
      split
      · exact .pure each
      · exact (gives_mark _ mid).bind fun _ _ comma => .pure (each.append (.one comma))

/-- What stands between two marks may be empty. -/
theorem fills_between (opening closing : Mark) {items : Reading (List Draft)}
    (lists : Lists items) : Fills do
      let first ← mark opening
      let ts ← items
      return first :: ts ++ [← mark closing] :=
  fun hi => (gives_mark _ hi).bind fun start _ first => (lists start).bind fun mid _ each =>
    (gives_mark _ mid).bind fun _ _ last => .pure ((Filled.cons first each).append (.one last))

/-- An item may have a terminator behind it. -/
theorem takes_ended {hi mid : Nat} {t : Draft} (sits : Sits hi mid t)
    {next : Option (List Draft) → Reading (Option (List Draft))}
    (ended : ∀ ts, next (some ts) = pure (some (t :: ts)))
    (unended : ∀ lo, lo ≤ mid →
      Takes lo (fun lo result => Series hi lo (result.getD [])) (next none)) :
    Takes mid (fun lo result => Series hi lo (result.getD [])) (terminator? >>= next) := by
  refine (offers_terminator? mid).bind fun lo result ends => ?_
  cases result with
  | none => exact unended lo ends.le
  | some ts =>
    rw [ended]
    exact .pure (.cons sits ends)

theorem fills_listed (opening closing : Mark) {item : Reading Draft} (gives : Gives item) :
    Fills (listed opening closing item) := by
  refine fills_between _ _ (lists_repeatWhile fun hi => .still (still_atMark _ _) fun here => ?_)
  split
  · exact .pure (.nil le_rfl)
  · refine (gives hi).bind fun mid _ last => takes_ended last (fun _ => rfl) fun lo le =>
      .still (still_atMark _ _) fun closed => ?_
    split
    · exact .pure (.cons last (.nil le))
    · exact .failure

theorem fills_terminated {item : Reading Draft} (gives : Gives item) :
    Fills (terminated item) := by
  refine fills_between _ _ (lists_repeatWhile fun hi => .still (still_atMark _ _) fun here => ?_)
  split
  · exact .pure (.nil le_rfl)
  · exact (gives hi).bind fun mid _ item => takes_ended item (fun _ => rfl) fun _ _ => .failure

end Grammar
end Marginalia.Go
