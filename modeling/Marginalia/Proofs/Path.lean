/-
Module: Marginalia.Proofs.Path
Purpose: Paths by their components: parents drop the last one, joining appends, and the ways to
  spell a path do not matter.
Main exports:
  Path.components_join, Path.components_of_parent?, Path.parent?_eq_none_iff, Path.ancestors_eq,
  Path.components_eq_nil_iff, Path.isAbsolute_iff, Path.under, Path.components_under
-/
import Marginalia.Path
import Marginalia.Proofs.Text.Chars
import Mathlib.Data.List.DropRight

namespace Marginalia.Path

/-! ### Pieces -/

/-- The component that stands before those that name something: the root or a leading dot. -/
def lead (absolute : Bool) (pieces : List String) : List String :=
  if absolute then ["/"] else if pieces.head? = some "." then ["."] else []

/-- The pieces that name something. -/
def solid (pieces : List String) : List String :=
  pieces.filter (!isVoid ·)

theorem components_eq (p : Path) : p.components = lead p.isAbsolute p.pieces ++ solid p.pieces := by
  unfold components lead solid
  cases p.isAbsolute with
  | true => rfl
  | false =>
    simp only [Bool.false_eq_true, if_false]
    split
    · rename_i pieces
      simp [pieces, isVoid]
    · rename_i dotless
      rw [if_neg, List.nil_append]
      intro dot
      obtain ⟨rest, pieces⟩ := List.head?_eq_some_iff.1 dot
      exact dotless rest pieces

theorem isAbsolute_iff_head (p : Path) : p.isAbsolute = true ↔ ∃ cs, p.toList = '/' :: cs := by
  simp [isAbsolute, List.head?_eq_some_iff]

theorem pieces_of_rooted {p : Path} {cs : List Char} (chars : p.toList = '/' :: cs) :
    p.pieces = (Text.splitOn '/' cs).map String.ofList := by
  have rooted : p.isAbsolute = true := (isAbsolute_iff_head p).2 ⟨cs, chars⟩
  simp [pieces, rooted, chars, Text.splitOn]

theorem pieces_of_relative {p : Path} (relative : p.isAbsolute = false) :
    p.pieces = (Text.splitOn '/' p.toList).map String.ofList := by
  simp [pieces, relative]

theorem map_toList_ofList (pieces : List (List Char)) :
    (pieces.map String.ofList).map String.toList = pieces := by
  simp [Function.comp_def]

/-- A path is its pieces with slashes between them, behind a slash if it starts at the root. -/
theorem ofPieces_pieces (p : Path) : ofPieces p.isAbsolute p.pieces = p := by
  apply String.toList_inj.1
  cases rooted : p.isAbsolute with
  | true =>
    obtain ⟨cs, chars⟩ := (isAbsolute_iff_head p).1 rooted
    rw [ofPieces, if_pos rfl, String.toList_append, Text.toList_intercalate, pieces_of_rooted chars,
      map_toList_ofList, chars]
    exact congrArg ('/' :: ·) (Text.joinWith_splitOn '/' cs)
  | false =>
    rw [ofPieces, if_neg Bool.false_ne_true, Text.toList_intercalate, pieces_of_relative rooted,
      map_toList_ofList]
    exact Text.joinWith_splitOn '/' p.toList

/-- What holds of the pieces of every path. -/
structure Written (absolute : Bool) (pieces : List String) : Prop where
  clear : ∀ piece ∈ pieces, '/' ∉ piece.toList
  filled : absolute = false → pieces.head? = some "" → pieces = [""]

theorem written_pieces (p : Path) : Written p.isAbsolute p.pieces := by
  cases rooted : p.isAbsolute with
  | true =>
    obtain ⟨cs, chars⟩ := (isAbsolute_iff_head p).1 rooted
    rw [pieces_of_rooted chars]
    refine ⟨?_, nofun⟩
    intro piece member
    obtain ⟨cs, split, rfl⟩ := List.mem_map.1 member
    simpa using Text.not_mem_of_mem_splitOn split
  | false =>
    rw [pieces_of_relative rooted]
    refine ⟨?_, fun _ empty => ?_⟩
    · intro piece member
      obtain ⟨cs, split, rfl⟩ := List.mem_map.1 member
      simpa using Text.not_mem_of_mem_splitOn split
    · cases chars : p.toList with
      | nil => rfl
      | cons c cs =>
        have differ : c ≠ '/' := by
          rintro rfl
          simp [isAbsolute, chars] at rooted
        obtain ⟨piece, pieces, -, split⟩ := Text.splitOn_cons_of_ne differ cs
        rw [chars, split] at empty
        simp at empty

/-- Pieces without slashes make a path with these pieces. -/
theorem pieces_ofPieces {absolute : Bool} {pieces : List String} (nonempty : pieces ≠ [])
    (written : Written absolute pieces) :
    (ofPieces absolute pieces).isAbsolute = absolute ∧
      (ofPieces absolute pieces).pieces = pieces := by
  have clear : ∀ piece ∈ pieces.map String.toList, '/' ∉ piece := by
    intro piece member
    obtain ⟨text, among, rfl⟩ := List.mem_map.1 member
    exact written.clear text among
  have split := Text.splitOn_joinWith (by simpa using nonempty) clear
  have back : (pieces.map String.toList).map String.ofList = pieces := by
    simp [Function.comp_def]
  cases absolute with
  | true =>
    have chars : (ofPieces true pieces).toList =
        '/' :: Text.joinWith ['/'] (pieces.map String.toList) := by
      rw [ofPieces, if_pos rfl, String.toList_append, Text.toList_intercalate]
      rfl
    refine ⟨(isAbsolute_iff_head _).2 ⟨_, chars⟩, ?_⟩
    rw [pieces_of_rooted chars, split, back]
  | false =>
    have chars : (ofPieces false pieces).toList =
        Text.joinWith ['/'] (pieces.map String.toList) := by
      rw [ofPieces, if_neg Bool.false_ne_true, Text.toList_intercalate]
      rfl
    have relative : (ofPieces false pieces).isAbsolute = false := by
      rw [Bool.eq_false_iff]
      intro rooted
      obtain ⟨cs, slash⟩ := (isAbsolute_iff_head _).1 rooted
      rw [chars] at slash
      -- the text starts with a slash, so its first piece is empty
      rw [slash, Text.splitOn, if_pos rfl] at split
      obtain ⟨first, rest, rfl⟩ := List.exists_cons_of_ne_nil nonempty
      obtain ⟨empty, -⟩ := List.cons.inj split
      have lone := written.filled rfl (by simp [String.toList_eq_nil_iff.1 empty.symm])
      rw [lone] at slash
      simp [Text.joinWith] at slash
    refine ⟨relative, ?_⟩
    rw [pieces_of_relative relative, chars, split, back]

theorem pieces_ne_nil (p : Path) : p.pieces ≠ [] := by
  cases rooted : p.isAbsolute with
  | true =>
    obtain ⟨cs, chars⟩ := (isAbsolute_iff_head p).1 rooted
    rw [pieces_of_rooted chars]
    simpa using Text.splitOn_ne_nil '/' cs
  | false =>
    rw [pieces_of_relative rooted]
    simpa using Text.splitOn_ne_nil '/' p.toList

/-- The components of the path made of pieces; no pieces make the root or the empty path. -/
theorem components_ofPieces {absolute : Bool} {pieces : List String}
    (written : Written absolute pieces) :
    (ofPieces absolute pieces).components = lead absolute pieces ++ solid pieces := by
  cases pieces with
  | nil => cases absolute <;> rfl
  | cons piece pieces =>
    obtain ⟨same, same'⟩ := pieces_ofPieces (List.cons_ne_nil _ _) written
    rw [components_eq, same, same']

theorem isAbsolute_ofPieces {absolute : Bool} {pieces : List String}
    (written : Written absolute pieces) : (ofPieces absolute pieces).isAbsolute = absolute := by
  cases pieces with
  | nil => cases absolute <;> rfl
  | cons piece pieces => exact (pieces_ofPieces (List.cons_ne_nil _ _) written).1

/-! ### What components tell -/

theorem slash_not_mem_components {p : Path} (relative : p.isAbsolute = false) :
    "/" ∉ p.components := by
  intro member
  rw [components_eq, relative, List.mem_append] at member
  rcases member with member | member
  · unfold lead at member
    split at member
    · contradiction
    · split at member
      · simp at member
      · simp at member
  · have clear := (written_pieces p).clear "/" (List.mem_filter.1 member).1
    simp at clear

theorem isAbsolute_iff (p : Path) : p.isAbsolute = true ↔ p.components.head? = some "/" := by
  constructor
  · intro rooted
    rw [components_eq, rooted]
    rfl
  · intro slash
    by_contra relative
    rw [Bool.not_eq_true] at relative
    exact slash_not_mem_components relative (List.mem_of_mem_head? slash)

theorem isAbsolute_congr {p q : Path} (same : p.components = q.components) :
    p.isAbsolute = q.isAbsolute := by
  rw [Bool.eq_iff_iff, isAbsolute_iff, isAbsolute_iff, same]

theorem components_eq_nil_iff (p : Path) : p.components = [] ↔ p = "" := by
  constructor
  · intro vacant
    have relative : p.isAbsolute = false := by
      rw [Bool.eq_false_iff, Ne, isAbsolute_iff, vacant]
      simp
    rw [components_eq, relative, List.append_eq_nil_iff] at vacant
    obtain ⟨dotless, hollow⟩ := vacant
    obtain ⟨first, rest, pieces⟩ := List.exists_cons_of_ne_nil (pieces_ne_nil p)
    -- the first piece names nothing and is no dot
    have empty : first = "" := by
      have void : isVoid first = true := by
        by_contra named
        rw [Bool.not_eq_true] at named
        have member : first ∈ solid p.pieces := by
          rw [solid, pieces]
          simp [named]
        simp [hollow] at member
      have undotted : first ≠ "." := by
        rintro rfl
        simp [lead, pieces] at dotless
      simpa [isVoid, undotted] using void
    have lone := (written_pieces p).filled relative (by rw [pieces, empty]; rfl)
    rw [← ofPieces_pieces p, relative, lone]
    rfl
  · rintro rfl
    rfl

/-! ### Parents -/

theorem solid_append (front back : List String) :
    solid (front ++ back) = solid front ++ solid back :=
  List.filter_append ..

theorem trimPieces_eq (absolute : Bool) (pieces : List String) :
    trimPieces absolute pieces =
      if absolute = false ∧ pieces.head? = some "." then "." :: pieces.tail.rdropWhile isVoid
      else pieces.rdropWhile isVoid := by
  unfold trimPieces
  split
  · cases absolute <;> simp [List.rdropWhile]
  · rename_i dotless
    rw [if_neg]
    · rfl
    · rintro ⟨-, dot⟩
      obtain ⟨rest, pieces⟩ := List.head?_eq_some_iff.1 dot
      exact dotless rest pieces

theorem solid_rdropWhile (pieces : List String) :
    solid (pieces.rdropWhile isVoid) = solid pieces := by
  induction pieces using List.reverseRecOn with
  | nil => rfl
  | append_singleton pieces last ih =>
    rw [List.rdropWhile_concat]
    split
    · rename_i void
      rw [ih, solid_append]
      simp [solid, void]
    · rfl

theorem trimPieces_le (absolute : Bool) (pieces : List String) :
    trimPieces absolute pieces <+: pieces := by
  rw [trimPieces_eq]
  split
  · rename_i dotted
    obtain ⟨rest, rfl⟩ := List.head?_eq_some_iff.1 dotted.2
    exact (List.prefix_cons_inj _).2 (List.rdropWhile_prefix isVoid _)
  · exact List.rdropWhile_prefix isVoid _

/-- Trimmed pieces make the same components. -/
theorem components_trimPieces (absolute : Bool) (pieces : List String) :
    lead absolute (trimPieces absolute pieces) ++ solid (trimPieces absolute pieces) =
      lead absolute pieces ++ solid pieces := by
  rw [trimPieces_eq]
  split
  · rename_i dotted
    obtain ⟨rest, rfl⟩ := List.head?_eq_some_iff.1 dotted.2
    have inner := solid_rdropWhile rest
    simp_all [lead, solid, isVoid]
  · rename_i undotted
    rw [solid_rdropWhile]
    congr 1
    unfold lead
    split
    · rfl
    · rename_i relative
      have bare : pieces.head? ≠ some "." := fun dot => undotted ⟨by simpa using relative, dot⟩
      obtain ⟨tail, whole⟩ := List.rdropWhile_prefix isVoid pieces
      rw [if_neg bare, if_neg]
      intro dot
      rw [← whole, List.head?_append, dot] at bare
      exact bare rfl

theorem isVoid_of_rdropWhile_eq {pieces init : List String} {last : String}
    (trimmed : pieces.rdropWhile isVoid = init ++ [last]) : isVoid last = false := by
  have nonempty : pieces.rdropWhile isVoid ≠ [] := by simp [trimmed]
  have solid := List.rdropWhile_last_not isVoid pieces nonempty
  simpa [trimmed] using solid

/-- The last of trimmed pieces is the last component. -/
theorem components_concat {absolute : Bool} {pieces init : List String} {last : String}
    (trimmed : trimPieces absolute pieces = init ++ [last]) :
    lead absolute (init ++ [last]) ++ solid (init ++ [last]) =
      lead absolute init ++ solid init ++ [last] := by
  have ends : isVoid last = false ∨ (absolute = false ∧ init = [] ∧ last = ".") := by
    rw [trimPieces_eq] at trimmed
    split at trimmed
    · rename_i dotted
      cases init with
      | nil =>
        obtain ⟨dot, -⟩ := List.cons.inj trimmed
        exact .inr ⟨dotted.1, rfl, dot.symm⟩
      | cons first init => exact .inl (isVoid_of_rdropWhile_eq (List.cons.inj trimmed).2)
    · exact .inl (isVoid_of_rdropWhile_eq trimmed)
  rcases ends with named | ⟨rfl, rfl, rfl⟩
  · have last_ : solid [last] = [last] := by simp [solid, named]
    have first : lead absolute (init ++ [last]) = lead absolute init := by
      cases init with
      | nil =>
        have undotted : last ≠ "." := by
          rintro rfl
          simp [isVoid] at named
        simp [lead, undotted]
      | cons first init => rfl
    rw [solid_append, last_, first, List.append_assoc]
  · rfl

/-- The parent of a path has all components but the last, and starts where the path starts. -/
theorem components_of_parent? {p q : Path} (parent : p.parent? = some q) :
    q.components = p.components.dropLast ∧ q.isAbsolute = p.isAbsolute ∧ p.components ≠ [] := by
  have written := written_pieces p
  have whole : p.components = _ := components_eq p
  rw [← components_trimPieces] at whole
  unfold parent? at parent
  rcases (trimPieces p.isAbsolute p.pieces).eq_nil_or_concat with voided | ⟨init, last, trimmed⟩
  · simp [voided] at parent
  · rw [List.concat_eq_append] at trimmed
    rw [trimmed, List.reverse_append] at parent
    simp only [List.reverse_cons, List.reverse_nil, List.nil_append, List.singleton_append,
      List.reverse_reverse, Option.some.injEq] at parent
    have part : trimPieces p.isAbsolute init <+: p.pieces :=
      ((trimPieces_le _ init).trans ⟨[last], trimmed.symm⟩).trans (trimPieces_le _ _)
    have inner : Written p.isAbsolute (trimPieces p.isAbsolute init) := by
      refine ⟨fun piece member => written.clear piece (part.subset member), ?_⟩
      intro relative empty
      -- only the empty path starts with an empty piece, and it has no parent
      obtain ⟨tail, whole⟩ := part
      have lone := written.filled relative (by rw [← whole, List.head?_append, empty]; rfl)
      rw [lone, relative] at trimmed
      have hollow : trimPieces false [""] = [] := by decide
      simp [hollow] at trimmed
    rw [trimmed, components_concat trimmed] at whole
    subst parent
    refine ⟨?_, isAbsolute_ofPieces inner, by simp [whole]⟩
    rw [components_ofPieces inner, components_trimPieces, whole, List.dropLast_concat]

theorem parent?_eq_none_iff (p : Path) :
    p.parent? = none ↔ p.components = [] ∨ p.components = ["/"] := by
  have whole : p.components = _ := components_eq p
  rw [← components_trimPieces] at whole
  unfold parent?
  rcases (trimPieces p.isAbsolute p.pieces).eq_nil_or_concat with hollow | ⟨init, last, trimmed⟩
  · rw [hollow] at whole
    cases rooted : p.isAbsolute with
    | true => simp_all [lead, solid]
    | false => simp_all [lead, solid]
  · rw [List.concat_eq_append] at trimmed
    rw [trimmed, components_concat trimmed] at whole
    have clear : last ≠ "/" := by
      rintro rfl
      have member : "/" ∈ trimPieces p.isAbsolute p.pieces := by simp [trimmed]
      have slashless := (written_pieces p).clear _ ((trimPieces_le _ _).subset member)
      simp at slashless
    rw [trimmed, whole]
    simp [List.append_eq_singleton_iff, clear]

/-- The components of the parent are told by those of the path. -/
theorem map_components_parent? (p : Path) :
    p.parent?.map components =
      if p.components = [] ∨ p.components = ["/"] then none else some p.components.dropLast := by
  have parentless := parent?_eq_none_iff p
  cases parent : p.parent? with
  | none => rw [if_pos (parentless.1 parent), Option.map_none]
  | some q =>
    rw [if_neg (mt parentless.2 (by simp [parent])), Option.map_some,
      (components_of_parent? parent).1]

/-! ### Joining -/

theorem join_eq_right {p q : Path} (alone : q.isAbsolute = true ∨ p = "") : p.join q = q := by
  rw [join, if_pos]
  simpa using alone

/-- A path that is not empty and one below it are written with one slash between them. -/
theorem toList_join {p q : Path} (nonempty : p ≠ "") (relative : q.isAbsolute = false) :
    ∃ front, (p.join q).toList = front ++ '/' :: q.toList ∧
      (p.toList = front ∨ p.toList = front ++ ['/']) := by
  have joins : ¬(q.isAbsolute || p == "") = true := by simp [relative, nonempty]
  rw [join, if_neg joins]
  split
  · rename_i slash
    rw [beq_iff_eq, List.getLast?_eq_some_iff] at slash
    obtain ⟨front, chars⟩ := slash
    exact ⟨front, by simp [String.toList_append, chars], .inr chars⟩
  · exact ⟨p.toList, by simp [String.toList_append], .inl rfl⟩

theorem isAbsolute_join {p q : Path} (nonempty : p ≠ "") (relative : q.isAbsolute = false) :
    (p.join q).isAbsolute = p.isAbsolute := by
  obtain ⟨front, joined, chars⟩ := toList_join nonempty relative
  have filled : p.toList ≠ [] := mt String.toList_eq_nil_iff.1 nonempty
  unfold isAbsolute
  rw [joined]
  rcases chars with chars | chars
  · rw [← chars, List.head?_append_of_ne_nil _ filled]
  · rw [chars]
    cases front with
    | nil => rfl
    | cons c front => rfl

theorem pieces_eq_drop (p : Path) :
    p.pieces =
      ((Text.splitOn '/' p.toList).drop (if p.isAbsolute then 1 else 0)).map String.ofList := by
  unfold pieces
  cases p.isAbsolute with
  | true => simp
  | false => simp

/-- Joining puts the pieces of the second path after those of the first, less an empty one that the
first may end with. -/
theorem pieces_join {p q : Path} (nonempty : p ≠ "") (relative : q.isAbsolute = false) :
    ∃ front, (p.join q).pieces = front ++ q.pieces ∧
      (p.pieces = front ∨ p.pieces = front ++ [""]) ∧ (p.isAbsolute = false → front ≠ []) := by
  obtain ⟨front, joined, chars⟩ := toList_join nonempty relative
  have filled := Text.splitOn_ne_nil '/' front
  have split : (p.join q).pieces =
      ((Text.splitOn '/' front).drop (if p.isAbsolute then 1 else 0)).map String.ofList ++
        q.pieces := by
    rw [pieces_eq_drop, isAbsolute_join nonempty relative, joined, Text.splitOn_append_sep,
      List.drop_append_of_le_length, List.map_append, pieces_of_relative relative]
    have := List.length_pos_iff.2 filled
    split <;> omega
  refine ⟨_, split, ?_, ?_⟩
  · rcases chars with chars | chars
    · left
      rw [pieces_eq_drop, chars]
    · right
      rw [pieces_eq_drop p, chars, Text.splitOn_append_sep, List.drop_append_of_le_length]
      · simp [Text.splitOn]
      · have := List.length_pos_iff.2 filled
        split <;> omega
  · intro rel
    simpa [rel] using filled

/-- Joining appends what the second path names. -/
theorem components_join {p q : Path} (nonempty : p ≠ "") (relative : q.isAbsolute = false) :
    (p.join q).components = p.components ++ solid q.pieces := by
  obtain ⟨front, joined, pieces, filled⟩ := pieces_join nonempty relative
  have names : solid p.pieces = solid front := by
    rcases pieces with pieces | pieces
    · rw [pieces]
    · rw [pieces, solid_append]
      simp [solid, isVoid]
  have first : lead p.isAbsolute (front ++ q.pieces) = lead p.isAbsolute p.pieces := by
    cases rooted : p.isAbsolute with
    | true => rfl
    | false =>
      obtain ⟨piece, rest, rfl⟩ := List.exists_cons_of_ne_nil (filled rooted)
      rcases pieces with pieces | pieces <;> rw [pieces] <;> rfl
  rw [components_eq, components_eq, isAbsolute_join nonempty relative, joined, solid_append, first,
    names, List.append_assoc]

/-- What a relative path names is told by its components. -/
theorem solid_pieces_of_relative {p : Path} (relative : p.isAbsolute = false) :
    solid p.pieces = solid p.components := by
  rw [components_eq, relative, solid_append]
  have names : solid (solid p.pieces) = solid p.pieces := by simp [solid]
  have first : solid (lead false p.pieces) = [] := by
    unfold lead
    split
    · contradiction
    · split <;> simp [solid, isVoid]
  rw [names, first, List.nil_append]

/-! ### Names -/

theorem isAbsolute_of_slash_not_mem {name : String} (clear : '/' ∉ name.toList) :
    Path.isAbsolute name = false := by
  rw [Bool.eq_false_iff]
  intro rooted
  obtain ⟨cs, chars⟩ := (isAbsolute_iff_head name).1 rooted
  simp [chars] at clear

theorem pieces_of_slash_not_mem {name : String} (clear : '/' ∉ name.toList) :
    pieces name = [name] := by
  rw [pieces_of_relative (isAbsolute_of_slash_not_mem clear), Text.splitOn_of_not_mem clear]
  simp

theorem components_join_name {p : Path} (nonempty : p ≠ "") {name : String}
    (clear : '/' ∉ name.toList) (named : isVoid name = false) :
    (p.join name).components = p.components ++ [name] := by
  rw [components_join nonempty (isAbsolute_of_slash_not_mem clear), pieces_of_slash_not_mem clear]
  simp [solid, named]

/-- The last piece of a path is all that follows its last slash. -/
theorem getLast?_pieces (p : Path) :
    ∃ last, p.pieces.getLast? = some last ∧ '/' ∉ last.toList ∧
      (p.toList = last.toList ∨ ∃ front, p.toList = front ++ '/' :: last.toList) := by
  cases rooted : p.isAbsolute with
  | true =>
    obtain ⟨cs, chars⟩ := (isAbsolute_iff_head p).1 rooted
    obtain ⟨last, ends, clear, whole⟩ := Text.splitOn_getLast? '/' cs
    refine ⟨String.ofList last, by simp [pieces_of_rooted chars, ends], by simpa using clear,
      .inr ?_⟩
    rcases whole with rfl | ⟨front, rfl⟩
    · exact ⟨[], by simp [chars]⟩
    · exact ⟨'/' :: front, by simp [chars]⟩
  | false =>
    obtain ⟨last, ends, clear, whole⟩ := Text.splitOn_getLast? '/' p.toList
    refine ⟨String.ofList last, by simp [pieces_of_relative rooted, ends], by simpa using clear, ?_⟩
    simpa using whole

theorem getLast?_pieces_join (p q : Path) : (p.join q).pieces.getLast? = q.pieces.getLast? := by
  by_cases alone : q.isAbsolute = true ∨ p = ""
  · rw [join_eq_right alone]
  · rw [not_or, Bool.not_eq_true] at alone
    obtain ⟨front, joined, -, -⟩ := pieces_join alone.2 alone.1
    rw [joined, List.getLast?_append_of_ne_nil _ (pieces_ne_nil q)]

theorem components_concat_of_getLast? {p : Path} {last : String}
    (ends : p.pieces.getLast? = some last)
    (named : isVoid last = false) : ∃ init, p.components = init ++ [last] := by
  obtain ⟨init, pieces⟩ := List.getLast?_eq_some_iff.1 ends
  refine ⟨lead p.isAbsolute p.pieces ++ solid init, ?_⟩
  rw [components_eq, pieces, solid_append]
  simp [solid, named]

/-- Below two spellings of a path lie spellings of a path. -/
theorem join_congr {p q : Path} (same : p.components = q.components) (r : Path) :
    (p.join r).components = (q.join r).components := by
  cases rooted : r.isAbsolute with
  | true => rw [join_eq_right (.inl rooted), join_eq_right (.inl rooted)]
  | false =>
    by_cases empty : p = ""
    · have empty' : q = "" := by
        rwa [← components_eq_nil_iff, ← same, components_eq_nil_iff]
      rw [empty, empty']
    · have nonempty : q ≠ "" := by
        rwa [Ne, ← components_eq_nil_iff, ← same, components_eq_nil_iff]
      rw [components_join empty rooted, components_join nonempty rooted, same]

/-! ### Ancestors -/

theorem components_ne_nil {p : Path} (rooted : p.isAbsolute = true) : p.components ≠ [] := by
  intro empty
  rw [isAbsolute_iff, empty] at rooted
  cases rooted

theorem length_components_le {p : Path} (rooted : p.isAbsolute = true) :
    p.components.length ≤ p.length + 1 := by
  obtain ⟨cs, chars⟩ := (isAbsolute_iff_head p).1 rooted
  have names : (solid p.pieces).length ≤ p.pieces.length := List.length_filter_le ..
  have cut := Text.length_splitOn_le '/' cs
  have size : p.length = cs.length + 1 := by rw [← String.length_toList, chars]; rfl
  rw [pieces_of_rooted chars, List.length_map] at names
  rw [components_eq, rooted, List.length_append, pieces_of_rooted chars]
  simp only [lead, if_true, List.length_singleton]
  omega

/-- There are no more ancestors than components. -/
theorem ancestorsUpTo_congr {n m : Nat} {p : Path} (rooted : p.isAbsolute = true)
    (enough : p.components.length ≤ n) (enough' : p.components.length ≤ m) :
    ancestorsUpTo n p = ancestorsUpTo m p := by
  have positive := List.length_pos_iff.2 (components_ne_nil rooted)
  induction n generalizing m p with
  | zero => omega
  | succ n ih =>
    obtain ⟨m, rfl⟩ : ∃ k, m = k + 1 := ⟨m - 1, by omega⟩
    rw [ancestorsUpTo, ancestorsUpTo]
    cases parent : p.parent? with
    | none => rfl
    | some q =>
      obtain ⟨components, starts, -⟩ := components_of_parent? parent
      have rooted' : q.isAbsolute = true := starts.trans rooted
      have shorter : q.components.length = p.components.length - 1 := by
        rw [components, List.length_dropLast]
      simp only [ih rooted' (by omega) (show q.components.length ≤ m by omega)
        (List.length_pos_iff.2 (components_ne_nil rooted'))]

theorem ancestors_eq {p : Path} (rooted : p.isAbsolute = true) :
    p.ancestors = p :: match p.parent? with
      | some q => q.ancestors
      | none => [] := by
  have enough := length_components_le rooted
  rw [ancestors, ancestorsUpTo]
  cases parent : p.parent? with
  | none => rfl
  | some q =>
    obtain ⟨components, starts, -⟩ := components_of_parent? parent
    have rooted' : q.isAbsolute = true := starts.trans rooted
    have shorter : q.components.length = p.components.length - 1 := by
      rw [components, List.length_dropLast]
    simp only [ancestors, ancestorsUpTo_congr rooted' (show q.components.length ≤ p.length by omega)
      (length_components_le rooted')]

/-- The ancestors from one of them on are its own. -/
theorem ancestors_of_append {p q : Path} {nearer farther : List Path} (rooted : p.isAbsolute = true)
    (split : p.ancestors = nearer ++ q :: farther) :
    q.ancestors = q :: farther ∧ q.isAbsolute = true := by
  induction nearer generalizing p with
  | nil =>
    have whole := split
    rw [ancestors_eq rooted] at split
    obtain ⟨rfl, -⟩ := List.cons.inj split
    exact ⟨whole, rooted⟩
  | cons first nearer ih =>
    rw [ancestors_eq rooted] at split
    obtain ⟨-, others⟩ := List.cons.inj split
    cases parent : p.parent? with
    | none => simp [parent] at others
    | some r =>
      rw [parent] at others
      exact ih ((components_of_parent? parent).2.1.trans rooted) others

theorem isAbsolute_of_mem_ancestors {p q : Path} (rooted : p.isAbsolute = true)
    (member : q ∈ p.ancestors) : q.isAbsolute = true := by
  obtain ⟨nearer, farther, split⟩ := List.append_of_mem member
  exact (ancestors_of_append rooted split).2

/-- Two spellings of a path that starts at the root have the same ancestors, up to spelling. -/
theorem ancestors_congr {p q : Path} (rooted : p.isAbsolute = true)
    (same : p.components = q.components) :
    p.ancestors.map components = q.ancestors.map components := by
  induction size : p.components.length generalizing p q with
  | zero => exact absurd (List.length_eq_zero_iff.1 size) (components_ne_nil rooted)
  | succ n ih =>
    have parents : p.parent?.map components = q.parent?.map components := by
      rw [map_components_parent?, map_components_parent?, same]
    rw [ancestors_eq rooted, ancestors_eq (isAbsolute_congr same ▸ rooted), List.map_cons,
      List.map_cons, same]
    congr 1
    cases parent : p.parent? with
    | none =>
      rw [parent, Option.map_none, eq_comm, Option.map_eq_none_iff] at parents
      rw [parents]
    | some r =>
      rw [parent, Option.map_some, eq_comm, Option.map_eq_some_iff] at parents
      obtain ⟨r', parent', spelled⟩ := parents
      obtain ⟨components, starts, -⟩ := components_of_parent? parent
      rw [parent']
      refine ih (starts.trans rooted) spelled.symm ?_
      rw [components, List.length_dropLast, size]
      rfl

/-! ### Names one inside the other -/

/-- A name that stands for itself in a path: it is not empty, not a single dot and has no slash. -/
def IsName (name : String) : Prop :=
  isVoid name = false ∧ '/' ∉ name.toList

instance (name : String) : Decidable (IsName name) :=
  inferInstanceAs (Decidable (_ ∧ _))

/-- The path that leads from another one down along names. -/
def under (p : Path) (names : List String) : Path :=
  names.foldl Path.join p

@[simp] theorem under_nil (p : Path) : p.under [] = p := rfl

@[simp] theorem under_cons (p : Path) (name : String) (names : List String) :
    p.under (name :: names) = (p.join name).under names := rfl

theorem solid_of_names {names : List String} (named : ∀ name ∈ names, IsName name) :
    solid names = names := by
  refine List.filter_eq_self.2 fun name member => ?_
  rw [(named name member).1]
  rfl

/-- Going down along names appends them to the components, and the path starts where it did. -/
theorem components_under {p : Path} (nonempty : p ≠ "") {names : List String}
    (named : ∀ name ∈ names, IsName name) :
    (p.under names).components = p.components ++ names ∧
      (p.under names).isAbsolute = p.isAbsolute := by
  induction names generalizing p with
  | nil => simp
  | cons name names ih =>
    obtain ⟨⟨filled, clear⟩, others⟩ := List.forall_mem_cons.1 named
    have joined := components_join_name nonempty clear filled
    have nonempty' : p.join name ≠ "" := by
      rw [Ne, ← components_eq_nil_iff, joined]
      simp
    obtain ⟨components, starts⟩ := ih nonempty' others
    rw [under_cons, components, joined, starts,
      isAbsolute_join nonempty (isAbsolute_of_slash_not_mem clear)]
    simp

/-- Behind the root the components of a path are names. -/
theorem isName_of_mem_tail {p : Path} (rooted : p.isAbsolute = true) :
    ∀ name ∈ p.components.tail, IsName name := by
  intro name member
  rw [components_eq, rooted] at member
  obtain ⟨piece, solid⟩ := List.mem_filter.1 member
  exact ⟨by simpa using solid, (written_pieces p).clear name piece⟩

end Marginalia.Path
