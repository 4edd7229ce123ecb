/-
Module: Marginalia.Proofs.Invocation.Scan
Purpose: Annotations can be read directly from the left, character by character, and that gives what
  reading them through placeholders gives.
Main exports:
  Invocation.cut, Invocation.scan?, Invocation.splitOn_escapeChars, Invocation.parse?_eq_scan?
-/
import Marginalia.Proofs.Invocation.RoundTrip

namespace Marginalia
namespace Invocation

/-! ### A direct reading -/

/-- The pieces of a text between the colons that stand not right behind a backslash. Whether the
text itself stands right behind one is told by `guarded`. -/
def cut (guarded : Bool) : List Char → List (List Char)
  | [] => [[]]
  | c :: cs =>
    if c = ':' ∧ guarded = false then [] :: cut false cs
    else (cut (c == '\\') cs).modifyHead (c :: ·)

/-- A piece with one character in the place of every `\:`. -/
def showColons (mark : Char) : List Char → List Char
  | '\\' :: ':' :: rest => mark :: showColons mark rest
  | c :: rest => c :: showColons mark rest
  | [] => []

/-- A piece as names, arguments and keys show it. -/
def shown (piece : List Char) : String :=
  String.ofList (showColons placeholder piece)

/-- The key of a piece: what stands before the first equals sign. -/
def keyOf (piece : List Char) : String :=
  shown (piece.takeWhile (· != '='))

/-- What stands behind the first equals sign of a piece. -/
def afterEquals (piece : List Char) : List Char :=
  (piece.dropWhile (· != '=')).drop 1

/-- The value of a piece, with its colons. -/
def valueOf (piece : List Char) : String :=
  String.ofList (showColons ':' (afterEquals piece))

/-- The values that pieces give to a key, in order. -/
def given (pieces : List (List Char)) (key : String) : List String :=
  (pieces.filter fun piece => piece != [] && keyOf piece == key).map valueOf

/-- Read an annotation directly: the arguments, and what every key holds. -/
def scan? (text name : String) (arity : Nat) (extra : Options) :
    Option (List String × (String → Option String)) :=
  match cut false text.toList with
  | [] => none
  | first :: rest =>
    if shown first = name ∧ arity ≤ rest.length then
      some ((rest.take arity).map shown, fun key =>
        match given (rest.drop arity) key with
        | [] => extra.get? key
        | values => some (",".intercalate values))
    else none

/-! ### Pieces -/

theorem cut_ne_nil (guarded : Bool) (cs : List Char) : cut guarded cs ≠ [] := by
  induction cs generalizing guarded with
  | nil => simp [cut]
  | cons c cs ih =>
    rw [cut]
    split
    · simp
    · simpa [List.modifyHead_eq_nil_iff] using ih _

/-- What stands before a text matters only for a colon at its start. -/
theorem cut_of_head {cs : List Char} (plain : cs.head? ≠ some ':') (guarded : Bool) :
    cut guarded cs = cut false cs := by
  cases cs with
  | nil => rfl
  | cons c cs =>
    have differ : c ≠ ':' := by simpa using plain
    simp [cut, differ]

/-- No text starts with a piece that starts with a colon. -/
theorem head?_cut {cs piece : List Char} {pieces : List (List Char)}
    (cuts : cut false cs = piece :: pieces) : piece.head? ≠ some ':' := by
  cases cs with
  | nil =>
    obtain ⟨rfl, -⟩ := List.cons.inj cuts
    simp
  | cons c cs =>
    by_cases colon : c = ':'
    · rw [cut, if_pos ⟨colon, rfl⟩] at cuts
      obtain ⟨rfl, -⟩ := List.cons.inj cuts
      simp
    · obtain ⟨first, others, rest⟩ := List.exists_cons_of_ne_nil (cut_ne_nil (c == '\\') cs)
      rw [cut, if_neg (by simp [colon]), rest, List.modifyHead_cons] at cuts
      obtain ⟨rfl, -⟩ := List.cons.inj cuts
      simpa using colon

theorem mem_of_mem_cut {guarded : Bool} {cs piece : List Char} (member : piece ∈ cut guarded cs)
    {d : Char} (inside : d ∈ piece) : d ∈ cs := by
  induction cs generalizing guarded piece with
  | nil => simp_all [cut]
  | cons c cs ih =>
    rw [cut] at member
    split at member
    · rcases List.mem_cons.1 member with rfl | member
      · cases inside
      · exact List.mem_cons_of_mem _ (ih member inside)
    · obtain ⟨first, others, rest⟩ := List.exists_cons_of_ne_nil (cut_ne_nil (c == '\\') cs)
      rw [rest, List.modifyHead_cons] at member
      have below : ∀ p ∈ first :: others, d ∈ p → d ∈ cs := fun p part => ih (rest ▸ part)
      rcases List.mem_cons.1 member with rfl | member
      · rcases List.mem_cons.1 inside with rfl | inside
        · exact List.mem_cons_self
        · exact List.mem_cons_of_mem _ (below first List.mem_cons_self inside)
      · exact List.mem_cons_of_mem _ (below piece (List.mem_cons_of_mem _ member) inside)

theorem length_cut_le (guarded : Bool) (cs : List Char) :
    (cut guarded cs).length ≤ cs.length + 1 := by
  induction cs generalizing guarded with
  | nil => simp [cut]
  | cons c cs ih =>
    rw [cut]
    split
    · simpa using ih false
    · have rest := ih (c == '\\')
      rw [List.length_modifyHead, List.length_cons]
      omega

/-! ### Colons behind backslashes -/

theorem showColons_cons {mark c : Char} {cs : List Char} (plain : c = '\\' → cs.head? ≠ some ':') :
    showColons mark (c :: cs) = c :: showColons mark cs := by
  rw [showColons]
  rintro rest rfl rfl
  exact plain rfl rfl

/-- A place that no colon follows lies inside no escape. -/
theorem showColons_append (mark : Char) (front : List Char) {back : List Char}
    (plain : back.head? ≠ some ':') :
    showColons mark (front ++ back) = showColons mark front ++ showColons mark back := by
  fun_induction showColons mark front with
  | case1 rest ih => rw [List.cons_append, List.cons_append, showColons, ih, List.cons_append]
  | case2 c rest outside ih =>
    rw [List.cons_append, showColons_cons, ih, List.cons_append]
    rintro rfl
    cases rest with
    | nil => exact plain
    | cons d rest =>
      intro head
      rw [List.cons_append, List.head?_cons, Option.some.injEq] at head
      subst head
      exact outside rest rfl rfl
  | case3 => rfl

/-- To split a text with hidden colons is to cut the text and hide the colons of the pieces. -/
theorem splitOn_escapeChars (cs : List Char) :
    Text.splitOn separator (escapeChars cs) = (cut false cs).map (showColons placeholder) := by
  fun_induction escapeChars cs with
  | case1 rest ih =>
    obtain ⟨piece, pieces, cuts⟩ := List.exists_cons_of_ne_nil (cut_ne_nil false rest)
    obtain ⟨first, others, split, split'⟩ :=
      Text.splitOn_cons_of_ne (show placeholder ≠ separator by decide) (escapeChars rest)
    rw [ih, cuts, List.map_cons] at split
    obtain ⟨rfl, rfl⟩ := List.cons.inj split
    simp [split', cut, cuts, showColons]
  | case2 c rest plain ih =>
    by_cases colon : c = ':'
    · rw [colon, Text.splitOn, if_pos (show ':' = separator from rfl), cut, if_pos ⟨rfl, rfl⟩, ih]
      rfl
    · -- a backslash here stands before no colon, so it guards nothing
      have harmless : cut (c == '\\') rest = cut false rest := by
        by_cases backslash : c = '\\'
        · refine cut_of_head (fun head => ?_) _
          obtain ⟨tail, rfl⟩ := List.head?_eq_some_iff.1 head
          exact plain tail backslash rfl
        · rw [beq_false_of_ne backslash]
      obtain ⟨piece, pieces, cuts⟩ := List.exists_cons_of_ne_nil (cut_ne_nil false rest)
      obtain ⟨first, others, split, split'⟩ :=
        Text.splitOn_cons_of_ne (show c ≠ separator from colon) (escapeChars rest)
      rw [ih, cuts, List.map_cons] at split
      obtain ⟨rfl, rfl⟩ := List.cons.inj split
      rw [split', cut, if_neg (by simp [colon]), harmless, cuts, List.modifyHead_cons,
        List.map_cons, showColons_cons fun _ => head?_cut cuts]
  | case3 => rfl

theorem segments_eq (text : String) : segments text = (cut false text.toList).map shown := by
  rw [segments, splitOn_escapeChars, List.map_map]
  rfl

/-- Hidden colons come back as colons, if nothing else was taken for one. -/
theorem unescapeChars_showColons {cs : List Char} (clear : placeholder ∉ cs) :
    unescapeChars (showColons placeholder cs) = showColons ':' cs := by
  fun_induction showColons placeholder cs with
  | case1 rest ih =>
    simp only [List.mem_cons, not_or] at clear
    rw [unescapeChars, List.map_cons, ← unescapeChars, ih clear.2.2, showColons, if_pos rfl]
    rfl
  | case2 c rest plain ih =>
    simp only [List.mem_cons, not_or] at clear
    rw [unescapeChars, List.map_cons, ← unescapeChars, ih clear.2, showColons,
      if_neg (Ne.symm clear.1)]
    exact plain
  | case3 => rfl

/-! ### Options -/

/-- An equals sign cuts a piece into its key and the text of its value. -/
theorem splitPair_shown (piece : List Char) :
    splitPair (shown piece) "=" =
      (keyOf piece, String.ofList (showColons placeholder (afterEquals piece))) := by
  have absent {cs : List Char} (clear : '=' ∉ cs) : '=' ∉ showColons placeholder cs := by
    fun_induction showColons placeholder cs with
    | case1 rest ih => simp_all [placeholder]
    | case2 c rest plain ih => simp_all
    | case3 => exact clear
  rw [splitPair, show "=".toList = ['='] from rfl, shown, String.toList_ofList]
  by_cases member : '=' ∈ piece
  · obtain ⟨key, value, rfl, clear⟩ := List.eq_append_cons_of_mem member
    have solid : ∀ c ∈ key, (c != '=') = true := by
      intro c inside
      simpa using fun same : c = '=' => clear (same ▸ inside)
    have whole : showColons placeholder (key ++ '=' :: value) =
        showColons placeholder key ++ '=' :: showColons placeholder value := by
      rw [showColons_append _ _ (by simp), showColons_cons (by simp)]
    rw [Text.cut?_eq_some_iff.2 ⟨whole, absent clear⟩, keyOf, afterEquals,
      List.takeWhile_append_of_pos solid, List.dropWhile_append_of_pos solid]
    simp [shown]
  · have solid : ∀ c ∈ piece, (c != '=') = true := by
      intro c inside
      simpa using fun same : c = '=' => member (same ▸ inside)
    rw [Text.cut?_eq_none_iff.2 (absent member), keyOf, afterEquals,
      List.takeWhile_eq_self_iff.2 solid, List.dropWhile_eq_nil_iff.2 solid]
    rfl

theorem collect_eq (segments : List String) (options : Options) :
    collect segments options =
      ((segments.filter fun s => !s.isEmpty).map (splitPair · "=")).foldl
        (fun acc pair => acc.push pair.1 pair.2) options := by
  induction segments generalizing options with
  | nil => rfl
  | cons segment segments ih =>
    rw [collect, List.foldl_cons, ← collect, ih, List.filter_cons]
    cases empty : segment.isEmpty with
    | true => rfl
    | false => rfl

theorem map_unescape_joined (values : List String) :
    (Options.joined values).map unescape = Options.joined (values.map unescape) := by
  cases values with
  | nil => rfl
  | cons value values =>
    have joined : unescape (",".intercalate (value :: values)) =
        ",".intercalate ((value :: values).map unescape) := by
      rw [unescape, ← String.toList_inj, String.toList_ofList, Text.toList_intercalate,
        Text.toList_intercalate, show ",".toList = [','] from rfl, unescapeChars_joinWith]
      simp [unescape, Function.comp_def]
    exact congrArg some joined

theorem isEmpty_shown (piece : List Char) : (shown piece).isEmpty = (piece == []) := by
  rw [Bool.eq_iff_iff, String.isEmpty_iff, ← String.toList_inj, shown, String.toList_ofList,
    beq_iff_eq]
  fun_cases showColons placeholder piece <;> simp

/-- What a key holds once the pieces are collected and the placeholders taken out. -/
theorem get?_collect_shown {pieces : List (List Char)}
    (clear : ∀ piece ∈ pieces, placeholder ∉ piece) (key : String) :
    ((collect (pieces.map shown) ∅).map unescape).get? key = Options.joined (given pieces key) := by
  rw [Dict.get?_map, collect_eq, Options.get?_foldl_push_empty, map_unescape_joined]
  congr 1
  simp only [Options.valuesOf, given, List.filter_map, List.map_map, List.filter_filter,
    Function.comp_def, splitPair_shown, isEmpty_shown]
  have tests : (pieces.filter fun piece => keyOf piece == key && !(piece == [])) =
      pieces.filter fun piece => piece != [] && keyOf piece == key := by
    congr 1
    funext piece
    exact Bool.and_comm _ _
  rw [tests]
  apply List.map_congr_left
  intro piece member
  have solid : placeholder ∉ afterEquals piece := by
    intro inside
    have tail : afterEquals piece <:+ piece :=
      (List.drop_suffix 1 _).trans (List.dropWhile_suffix _)
    exact clear piece (List.mem_of_mem_filter member) (tail.subset inside)
  rw [unescape, String.toList_ofList, unescapeChars_showColons solid, valueOf]

/-! ### The two readings -/

section Reading

variable {text : String} {first : List Char} {rest : List (List Char)}
  (cuts : cut false text.toList = first :: rest) (name : String) (arity : Nat) (extra : Options)

include cuts

theorem parse?_of_cut : parse? text name arity extra =
    if shown first = name ∧ arity ≤ rest.length then
      some ⟨(rest.take arity).map shown,
        Options.withDefaults ((collect ((rest.drop arity).map shown) ∅).map unescape) extra⟩
    else none := by
  rw [parse?, segments_eq, cuts, List.map_cons]
  dsimp only
  rw [List.length_map, ← List.map_drop, ← List.map_take]
  by_cases fits : shown first = name ∧ arity ≤ rest.length
  · rw [if_pos fits, if_neg]
    rintro (differ | few)
    · exact differ fits.1
    · omega
  · rw [if_neg fits, if_pos]
    by_contra both
    simp only [not_or, not_not, Nat.not_lt] at both
    exact fits both

/-- What a key holds of the options that are read, with the defaults. -/
theorem get?_options_of_cut (clear : placeholder ∉ text.toList) (key : String) :
    (Options.withDefaults ((collect ((rest.drop arity).map shown) ∅).map unescape) extra).get? key =
      match given (rest.drop arity) key with
      | [] => extra.get? key
      | values => some (",".intercalate values) := by
  have clearPieces : ∀ piece ∈ rest.drop arity, placeholder ∉ piece := by
    intro piece member inside
    have part : piece ∈ cut false text.toList :=
      cuts ▸ List.mem_cons_of_mem _ (List.mem_of_mem_drop member)
    exact clear (mem_of_mem_cut part inside)
  rw [Options.get?_withDefaults, get?_collect_shown clearPieces]
  cases given (rest.drop arity) key with
  | nil => rfl
  | cons value values => rfl

end Reading

/-- Reading an annotation through placeholders gives what the direct reading gives. The slices that
it takes of the segments lie within them: there is a first segment, and where there is a result the
arguments end at or before the last segment, of which there are at most one more than characters. -/
theorem parse?_eq_scan? {text : String} (clear : placeholder ∉ text.toList) (name : String)
    (arity : Nat) (extra : Options) :
    (parse? text name arity extra).map (fun i => (i.args, i.options.get?)) =
        scan? text name arity extra ∧
      segments text ≠ [] ∧ (segments text).length ≤ text.length + 1 ∧
      ((parse? text name arity extra).isSome → 1 + arity ≤ (segments text).length) := by
  obtain ⟨first, rest, cuts⟩ := List.exists_cons_of_ne_nil (cut_ne_nil false text.toList)
  have read := parse?_of_cut cuts name arity extra
  have count : (segments text).length = rest.length + 1 := by
    rw [segments_eq, cuts, List.length_map, List.length_cons]
  refine ⟨?_, ?_, ?_, ?_⟩
  · rw [read, scan?, cuts]
    dsimp only
    split
    · rw [Option.map_some]
      congr 2
      funext key
      exact get?_options_of_cut cuts arity extra clear key
    · rfl
  · rw [← List.length_pos_iff]
    omega
  · rw [segments_eq, List.length_map, ← String.length_toList]
    exact length_cut_le false text.toList
  · intro found
    rw [read] at found
    split at found
    · omega
    · cases found

/-- Colons behind one and two backslashes, an empty segment, an empty key, and a key that is written
twice, once without a value. No text has as many arguments as the greatest number of them. -/
theorem parse?_eq_scan?_backslashes :
    let text := "n\\:m:a\\::k=\\:x\\\\:y:=y::k:\\:=1"
    let extra : Options := Dict.ofList [("k", "no"), ("z", "d")]
    placeholder ∉ text.toList ∧
    (∃ options, parse? text "n\ue03am" 1 extra = some ⟨["a\ue03a"], options⟩ ∧
      options.get? "k" = some ":x\\:y," ∧ options.get? "" = some "y" ∧
      options.get? "\ue03a" = some "1" ∧ options.get? "z" = some "d" ∧
      options.get? "y" = none) ∧
    parse? text "n\ue03am" (2 ^ 64 - 1) extra = none := by
  intro text extra
  have clear : placeholder ∉ text.toList := by decide +kernel
  obtain ⟨one, -⟩ := parse?_eq_scan? clear "n\ue03am" 1 extra
  obtain ⟨many, -⟩ := parse?_eq_scan? clear "n\ue03am" (2 ^ 64 - 1) extra
  have cuts : cut false text.toList = ["n\\:m".toList, "a\\:".toList, "k=\\:x\\\\:y".toList,
      "=y".toList, [], "k".toList, "\\:=1".toList] := by
    decide +kernel
  have name : shown "n\\:m".toList = "n\ue03am" := by decide +kernel
  rw [scan?, cuts] at one many
  refine ⟨clear, ?_, ?_⟩
  · dsimp only at one
    rw [if_pos ⟨name, by decide⟩] at one
    obtain ⟨⟨args, options⟩, read, same⟩ := Option.map_eq_some_iff.1 one
    obtain ⟨listed, held⟩ := Prod.mk.inj same
    have listed : args = ["a\ue03a"] := listed.trans (by decide +kernel)
    subst listed
    refine ⟨options, read, ?_⟩
    simp only [held]
    decide +kernel
  · dsimp only at many
    rw [if_neg (by decide)] at many
    exact Option.map_eq_none_iff.1 many

end Invocation
end Marginalia
