/-
Module: Marginalia.Proofs.Invocation.RoundTrip
Purpose: Annotations can be written, and reading a written annotation gives back what was written.
Main exports:
  Invocation.write, Invocation.Writable, Invocation.segments_write, Invocation.parse?_write
-/
import Marginalia.Invocation.Parse
import Marginalia.Proofs.Invocation.Options
import Marginalia.Proofs.Text.Chars

namespace Marginalia

namespace Invocation

/-! ### Writing -/

/-- The characters of a value as they are written, colons behind backslashes. -/
def guardChars (cs : List Char) : List Char :=
  cs.flatMap fun c => if c = separator then ['\\', separator] else [c]

/-- An option as it is written. -/
def writeOption (pair : String × String) : String :=
  pair.1 ++ "=" ++ String.ofList (guardChars pair.2.toList)

/-- An annotation with a name, arguments and options. -/
def write (name : String) (args : List String) (pairs : List (String × String)) : String :=
  ":".intercalate (name :: args ++ pairs.map writeOption)

/-- What can be written so that it reads back. Colons belong into values only, an equals sign ends a
key, the placeholder stands for a colon, and a backslash at the end of a segment would hide the
separator behind it. -/
structure Writable (name : String) (args : List String) (pairs : List (String × String)) :
    Prop where
  colons : ∀ s ∈ name :: args ++ pairs.map (·.1), ':' ∉ s.toList
  equals : ∀ pair ∈ pairs, '=' ∉ pair.1.toList
  placeholders : ∀ s ∈ name :: args ++ pairs.map (·.1) ++ pairs.map (·.2),
    placeholder ∉ s.toList
  backslashes : ∀ s ∈ name :: args ++ pairs.map (·.2), s.toList.getLast? ≠ some '\\'

/-! ### Escapes -/

theorem escapeChars_cons {c : Char} {cs : List Char} (plain : c = '\\' → cs.head? ≠ some ':') :
    escapeChars (c :: cs) = c :: escapeChars cs := by
  rw [escapeChars]
  rintro rest rfl rfl
  exact plain rfl rfl

/-- Escapes on the two sides of a place are independent unless the place lies inside one. -/
theorem escapeChars_append {front : List Char} (outside : front.getLast? ≠ some '\\')
    (back : List Char) : escapeChars (front ++ back) = escapeChars front ++ escapeChars back := by
  fun_induction escapeChars front with
  | case1 rest ih =>
    have rest' : rest.getLast? ≠ some '\\' := by
      cases rest with
      | nil => simp
      | cons d rest => simpa [List.getLast?_cons_cons] using outside
    rw [List.cons_append, List.cons_append, escapeChars, ih rest', List.cons_append]
  | case2 c rest plain ih =>
    cases rest with
    | nil =>
      have solid : c ≠ '\\' := by simpa using outside
      rw [List.singleton_append, escapeChars_cons fun same => absurd same solid]
      rfl
    | cons d rest =>
      rw [List.cons_append, escapeChars_cons, ih, List.cons_append]
      · simpa [List.getLast?_cons_cons] using outside
      · rintro rfl head
        rw [List.cons_append, List.head?_cons, Option.some.injEq] at head
        subst head
        exact plain rest rfl rfl
  | case3 => rfl

theorem escapeChars_of_not_mem {cs : List Char} (clear : ':' ∉ cs) : escapeChars cs = cs := by
  induction cs with
  | nil => rfl
  | cons c cs ih =>
    rw [List.mem_cons, not_or] at clear
    rw [escapeChars_cons, ih clear.2]
    rintro - head
    exact clear.2 (List.mem_of_mem_head? head)

/-- The characters of a value as the segments show them, placeholders for colons. -/
def hideChars (cs : List Char) : List Char :=
  cs.map fun c => if c = separator then placeholder else c

theorem head?_guardChars (cs : List Char) : (guardChars cs).head? ≠ some ':' := by
  cases cs with
  | nil => simp [guardChars]
  | cons c cs =>
    by_cases colon : c = separator
    · simp [guardChars, colon]
    · have : c ≠ ':' := colon
      simp [guardChars, colon, this]

theorem escapeChars_guardChars (cs : List Char) : escapeChars (guardChars cs) = hideChars cs := by
  induction cs with
  | nil => rfl
  | cons c cs ih =>
    rw [guardChars, List.flatMap_cons, ← guardChars, hideChars, List.map_cons, ← hideChars, ← ih]
    by_cases colon : c = separator
    · rw [if_pos colon, if_pos colon]
      rfl
    · rw [if_neg colon, if_neg colon, List.singleton_append,
        escapeChars_cons fun _ => head?_guardChars cs]

theorem getLast?_guardChars (cs : List Char) : (guardChars cs).getLast? = cs.getLast? := by
  induction cs with
  | nil => rfl
  | cons c cs ih =>
    rw [guardChars, List.flatMap_cons, ← guardChars, List.getLast?_append, ih, List.getLast?_cons]
    split
    · rename_i colon
      cases cs.getLast? <;> simp [colon]
    · cases cs.getLast? <;> simp

theorem colon_not_mem_hideChars (cs : List Char) : ':' ∉ hideChars cs := by
  intro member
  obtain ⟨c, -, shown⟩ := List.mem_map.1 member
  split at shown
  · exact absurd shown (by decide)
  · rename_i plain
    exact plain shown

theorem unescapeChars_hideChars {cs : List Char} (clear : placeholder ∉ cs) :
    unescapeChars (hideChars cs) = cs := by
  rw [unescapeChars, hideChars, List.map_map]
  conv_rhs => rw [← List.map_id cs]
  apply List.map_congr_left
  intro c member
  by_cases colon : c = separator
  · simp [colon]
  · have solid : c ≠ placeholder := fun same => clear (same ▸ member)
    simp [colon, solid]

theorem escapeChars_joinWith {pieces : List (List Char)}
    (outside : ∀ piece ∈ pieces, piece.getLast? ≠ some '\\') :
    escapeChars (Text.joinWith [separator] pieces) =
      Text.joinWith [separator] (pieces.map escapeChars) := by
  induction pieces with
  | nil => rfl
  | cons piece pieces ih =>
    obtain ⟨first, others⟩ := List.forall_mem_cons.1 outside
    cases pieces with
    | nil => rfl
    | cons next pieces =>
      have colon : escapeChars (separator :: Text.joinWith [separator] (next :: pieces)) =
          separator :: escapeChars (Text.joinWith [separator] (next :: pieces)) :=
        escapeChars_cons fun same => absurd same (by decide)
      rw [Text.joinWith, List.append_assoc, List.singleton_append, escapeChars_append first, colon,
        ih others]
      · simp [Text.joinWith]
      · simp

/-! ### Reading what was written -/

section Written

variable {name : String} {args : List String} {pairs : List (String × String)}

/-- An option as the segments show it. -/
def shownOption (pair : String × String) : String :=
  pair.1 ++ "=" ++ String.ofList (hideChars pair.2.toList)

theorem toList_writeOption (pair : String × String) :
    (writeOption pair).toList = pair.1.toList ++ '=' :: guardChars pair.2.toList := by
  simp [writeOption]

theorem toList_shownOption (pair : String × String) :
    (shownOption pair).toList = pair.1.toList ++ '=' :: hideChars pair.2.toList := by
  simp [shownOption]

theorem escapeChars_writeOption {pair : String × String} (colonless : ':' ∉ pair.1.toList) :
    escapeChars (writeOption pair).toList = (shownOption pair).toList := by
  have split : (writeOption pair).toList =
      (pair.1.toList ++ ['=']) ++ guardChars pair.2.toList := by
    simp [toList_writeOption]
  have front : ':' ∉ pair.1.toList ++ ['='] := by simp [colonless]
  rw [split, escapeChars_append (by simp), escapeChars_of_not_mem front, escapeChars_guardChars,
    toList_shownOption]
  simp

theorem getLast?_writeOption {pair : String × String}
    (solid : pair.2.toList.getLast? ≠ some '\\') :
    (writeOption pair).toList.getLast? ≠ some '\\' := by
  rw [toList_writeOption, List.getLast?_append, List.getLast?_cons, getLast?_guardChars]
  cases last : pair.2.toList.getLast? with
  | none => simp
  | some c => simpa [last] using solid

/-- The segments of a written annotation are its name, its arguments and its options. -/
theorem segments_write (writable : Writable name args pairs) :
    segments (write name args pairs) = name :: args ++ pairs.map shownOption := by
  obtain ⟨colons, -, -, backslashes⟩ := writable
  have pieces : (write name args pairs).toList =
      Text.joinWith [separator] ((name :: args ++ pairs.map writeOption).map String.toList) :=
    Text.toList_intercalate ":" _
  have outside : ∀ piece ∈ (name :: args ++ pairs.map writeOption).map String.toList,
      piece.getLast? ≠ some '\\' := by
    intro piece shown
    obtain ⟨s, member, rfl⟩ := List.mem_map.1 shown
    rcases List.mem_append.1 member with word | option
    · exact backslashes s (List.mem_append_left _ word)
    · obtain ⟨pair, own, rfl⟩ := List.mem_map.1 option
      exact getLast?_writeOption
        (backslashes pair.2 (List.mem_append_right _ (List.mem_map_of_mem own)))
  have escaped : ((name :: args ++ pairs.map writeOption).map String.toList).map escapeChars =
      (name :: args ++ pairs.map shownOption).map String.toList := by
    simp only [List.map_append, List.map_map]
    congr 1
    · apply List.map_congr_left
      intro s member
      exact escapeChars_of_not_mem (colons s (List.mem_append_left _ member))
    · apply List.map_congr_left
      intro pair member
      exact escapeChars_writeOption
        (colons pair.1 (List.mem_append_right _ (List.mem_map_of_mem member)))
  have clear : ∀ piece ∈ (name :: args ++ pairs.map shownOption).map String.toList,
      separator ∉ piece := by
    intro piece shown
    obtain ⟨s, member, rfl⟩ := List.mem_map.1 shown
    rcases List.mem_append.1 member with word | option
    · exact colons s (List.mem_append_left _ word)
    · obtain ⟨pair, own, rfl⟩ := List.mem_map.1 option
      have colonless := colons pair.1 (List.mem_append_right _ (List.mem_map_of_mem own))
      have solid : ':' ∉ hideChars pair.2.toList := colon_not_mem_hideChars _
      rw [toList_shownOption]
      simp [separator, colonless, solid]
  rw [segments, pieces, escapeChars_joinWith outside, escaped,
    Text.splitOn_joinWith (by simp) clear, List.map_map]
  simp [Function.comp_def]

/-- Collecting shown options pushes their keys and values in turn. -/
theorem collect_shownOption (equals : ∀ pair ∈ pairs, '=' ∉ pair.1.toList) (options : Options) :
    collect (pairs.map shownOption) options =
      (pairs.map fun pair => (pair.1, String.ofList (hideChars pair.2.toList))).foldl
        (fun acc pair => acc.push pair.1 pair.2) options := by
  induction pairs generalizing options with
  | nil => rfl
  | cons pair pairs ih =>
    obtain ⟨first, others⟩ := List.forall_mem_cons.1 equals
    have nonempty : shownOption pair ≠ "" := by
      rw [Ne, ← String.toList_inj, toList_shownOption]
      simp
    have split : splitPair (shownOption pair) "=" =
        (pair.1, String.ofList (hideChars pair.2.toList)) := by
      have cut := Text.cut?_eq_some_iff.2 ⟨toList_shownOption pair, first⟩
      rw [splitPair, show "=".toList = ['='] from rfl, cut]
      simp
    have rest := ih others (options.push pair.1 (String.ofList (hideChars pair.2.toList)))
    simpa [collect, nonempty, split] using rest

theorem unescapeChars_joinWith (pieces : List (List Char)) :
    unescapeChars (Text.joinWith [','] pieces) =
      Text.joinWith [','] (pieces.map unescapeChars) := by
  induction pieces with
  | nil => rfl
  | cons piece pieces ih =>
    cases pieces with
    | nil => rfl
    | cons next pieces =>
      rw [Text.joinWith, unescapeChars, List.map_append, List.map_append, ← unescapeChars,
        ← unescapeChars, ← unescapeChars, ih]
      · rfl
      · simp

/-- Joined values lose their placeholders one by one. -/
theorem unescape_intercalate {values : List String}
    (clear : ∀ value ∈ values, placeholder ∉ value.toList) :
    unescape (",".intercalate (values.map fun v => String.ofList (hideChars v.toList))) =
      ",".intercalate values := by
  have shown : (values.map fun v => unescapeChars (hideChars v.toList)) =
      values.map String.toList := by
    apply List.map_congr_left
    intro value member
    exact unescapeChars_hideChars (clear value member)
  rw [unescape, ← String.toList_inj, String.toList_ofList, Text.toList_intercalate,
    Text.toList_intercalate, show ",".toList = [','] from rfl, unescapeChars_joinWith, ← shown]
  simp [Function.comp_def]

/-- What a key holds once the shown options are collected and the placeholders taken out. -/
theorem get?_collected (writable : Writable name args pairs) (key : String) :
    ((collect (pairs.map shownOption) ∅).map unescape).get? key =
      Options.joined (Options.valuesOf pairs key) := by
  rw [Dict.get?_map, collect_shownOption writable.equals, Options.get?_foldl_push_empty]
  have values : Options.valuesOf
      (pairs.map fun pair => (pair.1, String.ofList (hideChars pair.2.toList))) key =
      (Options.valuesOf pairs key).map fun v => String.ofList (hideChars v.toList) := by
    simp [Options.valuesOf, List.filter_map, Function.comp_def]
  have clear : ∀ value ∈ Options.valuesOf pairs key, placeholder ∉ value.toList := by
    intro value member
    obtain ⟨pair, kept, rfl⟩ := List.mem_map.1 member
    exact writable.placeholders pair.2
      (List.mem_append_right _ (List.mem_map_of_mem (List.mem_of_mem_filter kept)))
  have whole := unescape_intercalate clear
  rw [values]
  cases held : Options.valuesOf pairs key with
  | nil => rfl
  | cons value rest =>
    rw [held] at whole
    exact congrArg some whole

/-- Reading a written annotation gives the arguments back, and options in which every written key
holds its values in order, joined by commas, and every other key what `extra` has for it. -/
theorem parse?_write (name : String) (args : List String) (pairs : List (String × String))
    (extra : Options) (writable : Writable name args pairs) :
    ∃ options, parse? (write name args pairs) name args.length extra = some ⟨args, options⟩ ∧
      ∀ key, options.get? key =
        match Options.valuesOf pairs key with
        | [] => extra.get? key
        | values => some (",".intercalate values) := by
  refine ⟨Options.withDefaults ((collect (pairs.map shownOption) ∅).map unescape) extra, ?_, ?_⟩
  · simp [parse?, segments_write writable]
  · intro key
    rw [Options.get?_withDefaults, get?_collected writable]
    cases Options.valuesOf pairs key with
    | nil => rfl
    | cons value values => rfl

/-- An annotation with an empty argument, colons behind backslashes, an empty key and a key that is
written twice. -/
theorem parse?_write_colons :
    Writable "api" ["", "v1"] [("k", "a\\:b=c"), ("", ""), ("k", ":,"), ("q\\", "x")] ∧
    ∃ options, parse? "api::v1:k=a\\\\:b=c:=:k=\\:,:q\\=x" "api" 2
        (Dict.ofList [("k", "no"), ("z", "d")]) = some ⟨["", "v1"], options⟩ ∧
      options.get? "k" = some "a\\:b=c,:," ∧ options.get? "" = some "" ∧
      options.get? "q\\" = some "x" ∧ options.get? "z" = some "d" ∧ options.get? "y" = none := by
  have writable : Writable "api" ["", "v1"]
      [("k", "a\\:b=c"), ("", ""), ("k", ":,"), ("q\\", "x")] :=
    ⟨by decide +kernel, by decide +kernel, by decide +kernel, by decide +kernel⟩
  have text : write "api" ["", "v1"] [("k", "a\\:b=c"), ("", ""), ("k", ":,"), ("q\\", "x")] =
      "api::v1:k=a\\\\:b=c:=:k=\\:,:q\\=x" := by decide +kernel
  obtain ⟨options, read, held⟩ := parse?_write "api" ["", "v1"]
    [("k", "a\\:b=c"), ("", ""), ("k", ":,"), ("q\\", "x")]
    (Dict.ofList [("k", "no"), ("z", "d")]) writable
  rw [text] at read
  exact ⟨writable, options, read, held "k", held "", held "q\\", held "z", held "y"⟩

end Written

end Invocation
end Marginalia
