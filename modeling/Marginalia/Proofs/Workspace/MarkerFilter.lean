/-
Module: Marginalia.Proofs.Workspace.MarkerFilter
Purpose: A file in which the marker does not occur has no annotated declarations, so that it need
  not be parsed.
Main exports:
  within_of_mem_commentLines, exists_comment_of_annotationOf?, declGroups, QuotesSource,
  annotatedDecls_eq_nil, quotesSource_of_sourceUnit, containsBytes_iff, plainDecls_of_parses,
  Workspace.decls_unfiltered
-/
import Marginalia.Proofs.Annotated.CommentLines
import Marginalia.Proofs.Go.Span
import Marginalia.Proofs.Workspace.ContentCache

namespace Marginalia

open Go (CommentGroup Decl GenDecl FuncDecl GenWord SourceUnit Span Spec Tree commentLines)
open Text (trim trimEnd)

/-! ### A marker that is read is written -/

/-- A line that a comment contributes is written in it. -/
theorem within_of_mem_commentLines {comment line : List Char}
    (member : line ∈ commentLines comment) : line <:+: comment := by
  have behind {lead body : List Char} (after : Text.after? lead comment = some body) :
      body <:+: comment := by
    rw [Text.after?_eq_some_iff.1 after]
    exact (List.suffix_append lead body).isInfix
  unfold commentLines at member
  split at member
  · rw [List.mem_singleton.1 member]
    exact List.nil_infix
  · rename_i body after
    rw [List.mem_singleton.1 member]
    exact (List.suffix_cons ' ' body).isInfix.trans (behind after)
  · rename_i body _ _ after
    split at member
    · cases member
    · rw [List.mem_singleton.1 member]
      exact behind after
  · split at member
    · rename_i body between
      obtain ⟨rest, after, before⟩ := Option.bind_eq_some_iff.1 between
      obtain ⟨reversed, split, rfl⟩ := Option.map_eq_some_iff.1 before
      have whole := congrArg List.reverse (Text.after?_eq_some_iff.1 split)
      rw [List.reverse_append, List.reverse_reverse, List.reverse_reverse] at whole
      have inner : reversed.reverse <:+: rest := by
        rw [whole]
        exact (List.prefix_append _ _).isInfix
      exact (Text.piece_within member).trans (inner.trans (behind after))
    · exact Text.piece_within member

/-- What stands in no line of a text with newlines at their ends, but in the text, has a newline. -/
theorem exists_line_of_within {part : List Char} (clear : '\n' ∉ part) (nonempty : part ≠ [])
    {lines : List (List Char)} (inside : part <:+: lines.flatMap (· ++ ['\n'])) :
    ∃ line ∈ lines, part <:+: line := by
  induction lines with
  | nil => exact absurd (List.infix_nil.1 inside) nonempty
  | cons line lines ih =>
    rw [List.flatMap_cons, List.append_assoc, List.singleton_append] at inside
    rcases Text.within_of_not_mem clear inside with here | later
    · exact ⟨line, List.mem_cons_self, here⟩
    · obtain ⟨line', member, found⟩ := ih later
      exact ⟨line', List.mem_cons_of_mem _ member, found⟩

/-- A marker that a line of a group's text starts with is written in one of the comments: clearing
away comment marks and blanks puts nothing together that is not so written. -/
theorem exists_comment_of_annotationOf? {marker : List Char} (nonempty : marker ≠ [])
    {group : CommentGroup} {line rest : List Char} (member : line ∈ groupLines group)
    (read : annotationOf? marker line = some rest) :
    ∃ comment ∈ group.comments, marker <:+: comment.toList := by
  have start : marker <:+: line := by
    have lead : marker <+: trim line := ⟨rest, (Text.after?_eq_some_iff.1 read).symm⟩
    exact lead.isInfix.trans (Text.trim_within line)
  have clear : '\n' ∉ marker := fun newline =>
    Text.not_mem_of_mem_splitOn member (start.mem newline)
  have inText : marker <:+: group.lines.flatMap (· ++ ['\n']) := by
    rw [← CommentGroup.toList_text]
    exact start.trans ((Text.piece_within member).trans (Text.trim_within _))
  obtain ⟨kept, among, inside⟩ := exists_line_of_within clear nonempty inText
  obtain ⟨comment, written, whole, part, rfl⟩ := CommentGroup.exists_of_mem_lines among
  obtain ⟨tail, trimmed, -⟩ := Text.trimEnd_eq_append whole
  have front : trimEnd whole <+: whole := ⟨tail, trimmed.symm⟩
  exact ⟨comment, written, inside.trans (front.isInfix.trans (within_of_mem_commentLines part))⟩

/-- Comment groups in which the marker is not written have no annotations. -/
theorem annotations_eq_nil {marker : String} {groups : List (Option CommentGroup)}
    (absent : ∀ g, some g ∈ groups → ∀ c ∈ g.comments, ¬marker.toList <:+: c.toList) :
    (splitComments marker groups).2 = [] := by
  by_cases empty : marker = ""
  · rw [empty]
    rfl
  · rw [splitComments_of_ne empty, List.map_eq_nil_iff, List.filterMap_eq_nil_iff]
    intro line member
    obtain ⟨g, listed, among⟩ := List.mem_flatMap.1 member
    rw [Option.eq_none_iff_forall_ne_some]
    intro rest read
    have nonempty : marker.toList ≠ [] := mt String.toList_eq_nil_iff.1 empty
    obtain ⟨c, written, inside⟩ := exists_comment_of_annotationOf? nonempty among read
    exact absent g (by simpa using listed) c written inside

/-! ### Declarations -/

/-- The comment groups that decide whether a declaration is annotated. Those of fields are not among
them: a field is only reported below an annotated declaration. -/
def declGroups : Decl → List (Option CommentGroup)
  | .func decl => [decl.doc]
  | .gen decl => decl.doc :: decl.specs.flatMap specGroups

/-- The comments of the declarations are parts of the source. -/
def QuotesSource (unit : SourceUnit) : Prop :=
  ∀ decl ∈ unit.decls, ∀ g, some g ∈ declGroups decl → ∀ c ∈ g.comments,
    c.toList <:+: unit.source.toList

theorem annotatedFunc?_eq_none {unit : SourceUnit} {marker : String} {decl : FuncDecl}
    (unannotated : (splitComments marker [decl.doc]).2 = []) :
    annotatedFunc? unit marker decl = none := by
  simp [annotatedFunc?, unannotated]

theorem annotatedSpecs_eq_nil {unit : SourceUnit} {marker : String} {decl : GenDecl}
    (above : (splitComments marker [decl.doc]).2 = [])
    (own : ∀ spec ∈ decl.specs, (splitComments marker (specGroups spec)).2 = []) :
    annotatedSpecs unit marker decl = [] := by
  rw [annotatedSpecs, List.filterMap_eq_nil_iff]
  intro spec member
  simp [above, own spec member]

/-- A source file in which the marker does not occur has no annotated declarations. -/
theorem annotatedDecls_eq_nil {unit : SourceUnit} {marker : String} (quotes : QuotesSource unit)
    (absent : ¬marker.toList <:+: unit.source.toList) : annotatedDecls unit marker = [] := by
  have unmarked : ∀ decl ∈ unit.decls, ∀ groups ⊆ declGroups decl,
      (splitComments marker groups).2 = [] := by
    intro decl declared groups part
    refine annotations_eq_nil fun g member c written inside => absent ?_
    exact inside.trans (quotes decl declared g (part member) c written)
  rw [annotatedDecls, List.flatMap_eq_nil_iff]
  intro decl declared
  cases decl with
  | func decl =>
    have unannotated := unmarked (.func decl) declared [decl.doc] (List.Subset.refl _)
    simp [annotatedFunc?_eq_none unannotated]
  | gen decl =>
    apply annotatedSpecs_eq_nil
    · apply unmarked (.gen decl) declared
      simp [declGroups]
    · intro spec member
      apply unmarked (.gen decl) declared
      intro g among
      exact List.mem_cons_of_mem _ (List.mem_flatMap.2 ⟨spec, member, among⟩)

/-! ### Comments of a source file -/

namespace Go

variable (source : String)

/-- The comments of a group, if there is one, are parts of the source. -/
def QuotedGroup (g : Option CommentGroup) : Prop :=
  ∀ group, g = some group → ∀ c ∈ group.comments, c.toList <:+: source.toList

theorem within_text (span : Span) : (span.text source).toList <:+: source.toList := by
  rw [Span.text, String.toList_ofList]
  cases cut : span.slice? source.toList with
  | none => exact List.nil_infix
  | some inner =>
    obtain ⟨front, back, whole, -⟩ := Span.slice?_eq_some_iff.1 cut
    exact ⟨front, back, by simpa using whole.symm⟩

theorem quoted_groupOf (comments : List Tree) : QuotedGroup source (groupOf source comments) := by
  intro group made
  unfold groupOf at made
  split at made
  · obtain rfl := Option.some.inj made
    intro c member
    obtain ⟨t, -, rfl⟩ := List.mem_map.1 member
    exact within_text source t.span
  · cases made

variable {source}

theorem specGroups_of_specOf? {t : Tree} {doc comment : Option CommentGroup} {spec : Spec}
    (made : specOf? source t doc comment = some spec) : specGroups spec = [doc, comment] := by
  unfold specOf? at made
  split at made
  case h_3 | h_4 =>
    obtain rfl := Option.some.inj made
    rfl
  case h_5 => cases made
  all_goals
    obtain ⟨name, -, made⟩ := Option.bind_eq_some_iff.1 made
    obtain ⟨type, -, made⟩ := Option.bind_eq_some_iff.1 made
    obtain rfl := Option.some.inj made
    rfl

theorem quoted_specsOf {fallback : Option CommentGroup} (quoted : QuotedGroup source fallback)
    (before ts : List Tree) :
    ∀ g ∈ (specsOf source fallback before ts).flatMap specGroups, QuotedGroup source g := by
  induction ts generalizing before with
  | nil => exact fun g member => by cases member
  | cons t ts ih =>
    have behind : QuotedGroup source ((trailingGroup source t ts).or fallback) := by
      intro group made
      rcases Option.or_eq_some_iff.1 made with own | ⟨-, shared⟩
      · exact quoted_groupOf source _ group own
      · exact quoted group shared
    intro g member
    rw [specsOf] at member
    split at member
    · rename_i spec made
      rw [List.flatMap_cons, specGroups_of_specOf? made] at member
      rcases List.mem_append.1 member with here | later
      · rcases List.mem_pair.1 here with rfl | rfl
        · exact quoted_groupOf source _
        · exact behind
      · exact ih (t :: before) g later
    · exact ih (t :: before) g member

theorem quoted_genDecl (word : GenWord) (before : List Tree) (t : Tree) (after : List Tree) :
    ∀ g ∈ declGroups (.gen (genDecl source word before t after)), QuotedGroup source g := by
  have fallback : ∀ grouped : Bool,
      QuotedGroup source (if grouped then none else trailingGroup source t after) := by
    intro grouped
    cases grouped with
    | true => exact fun group made => by cases made
    | false => exact quoted_groupOf source _
  intro g member
  rcases List.mem_cons.1 member with rfl | inner
  · exact quoted_groupOf source _
  · exact quoted_specsOf (fallback _) [] _ g inner

theorem quoted_funcDecl (before : List Tree) (t : Tree) :
    ∀ g ∈ declGroups (.func (funcDecl source t (leadingGroup source before t))),
      QuotedGroup source g := by
  intro g member
  rw [List.mem_singleton.1 member]
  exact quoted_groupOf source _

theorem quoted_declsOf (before ts : List Tree) :
    ∀ decl ∈ declsOf source before ts, ∀ g ∈ declGroups decl, QuotedGroup source g := by
  induction ts generalizing before with
  | nil => exact fun decl member => by cases member
  | cons t ts ih =>
    have both {first : Decl} (here : ∀ g ∈ declGroups first, QuotedGroup source g) :
        ∀ decl ∈ first :: declsOf source (t :: before) ts, ∀ g ∈ declGroups decl,
          QuotedGroup source g :=
      List.forall_mem_cons.2 ⟨here, ih (t :: before)⟩
    unfold declsOf
    split
    · exact both (quoted_funcDecl before t)
    · exact both (quoted_funcDecl before t)
    · exact both (quoted_genDecl .type before t ts)
    · exact both (quoted_genDecl .var before t ts)
    · exact both (quoted_genDecl .const before t ts)
    · exact ih (t :: before)

end Go

/-- The comments of a source file that is read are parts of its text. -/
theorem quotesSource_of_parse {p : Path} {source : String} {unit : SourceUnit}
    (read : SourceUnit.parse p source = .ok unit) : unit.source = source ∧ QuotesSource unit := by
  unfold SourceUnit.parse at read
  split at read
  · rename_i tree parsed
    unfold SourceUnit.ofTree at read
    dsimp only at read
    split at read
    · cases read
    · obtain rfl := Except.ok.inj read
      refine ⟨rfl, fun decl declared g member c written => ?_⟩
      exact Go.quoted_declsOf [] tree.children decl declared (some g) member g rfl c written
  · cases read

theorem quotesSource_of_sourceUnit {p : Path} {content : Bytes} {unit : SourceUnit}
    (read : sourceUnit p content = .ok unit) :
    content = Utf8.ofString unit.source ∧ QuotesSource unit := by
  obtain ⟨source, decoded, parsed⟩ := sourceUnit_eq_ok_iff.1 read
  obtain ⟨same, quotes⟩ := quotesSource_of_parse parsed
  rw [same]
  exact ⟨Utf8.toString_eq_ok_iff.1 decoded, quotes⟩

/-! ### The search for the marker -/

theorem containsBytes_iff {part bytes : Bytes} :
    containsBytes part bytes = true ↔ part <:+: bytes := by
  induction bytes with
  | nil => simp [containsBytes]
  | cons b bytes ih =>
    rw [containsBytes, Bool.or_eq_true, ih, List.isPrefixOf_iff_prefix, List.infix_cons_iff]

/-- A text that occurs in another occurs in its bytes. -/
theorem containsBytes_of_within {part whole : String} (inside : part.toList <:+: whole.toList) :
    containsBytes (Utf8.ofString part) (Utf8.ofString whole) = true := by
  obtain ⟨front, back, split⟩ := inside
  rw [containsBytes_iff, Utf8.ofString, Utf8.ofString, ← split, Utf8.encode_append,
    Utf8.encode_append]
  exact ⟨Utf8.encode front, Utf8.encode back, rfl⟩

/-- The declarations of a file that can be parsed are those that extracting finds in it, whether the
search lets it through or not. -/
theorem plainDecls_of_parses {files : FileTree} {p : Path} {content : Bytes} {unit : SourceUnit}
    (named : (files.absolute p).isGoFile = true)
    (read : files.read (files.absolute p) = .ok content)
    (parsed : sourceUnit (files.absolute p) content = .ok unit) (marker : String) :
    plainDecls files p marker = .ok (annotatedDecls unit marker) := by
  unfold plainDecls
  simp only [named, read, parsed]
  cases found : containsBytes (Utf8.ofString marker) content with
  | true => rfl
  | false =>
    obtain ⟨decoded, quotes⟩ := quotesSource_of_sourceUnit parsed
    have absent : ¬marker.toList <:+: unit.source.toList := by
      intro inside
      have occurs := containsBytes_of_within inside
      rw [← decoded, found] at occurs
      cases occurs
    rw [annotatedDecls_eq_nil quotes absent]
    rfl

namespace Workspace

/-- After any history a file is answered for as if it were read anew. -/
theorem fileDecls_afterAll {w : Workspace} (new : w.memory.caches = {}) {events : List Event}
    {p : Path} {marker : String}
    (single : (spellings w.files (events ++ [.decls p marker])).InjOn Path.components) :
    ((w.afterAll events).ask (fileDecls p marker)).1 =
      plainDecls (w.afterAll events).files p marker := by
  have sound : SoundContent (spellings w.files (events ++ [.decls p marker]))
      (w.afterAll events).memory := by
    refine sound_afterAll single (soundContent_of_empty _ new) ?_
    intro q member
    obtain ⟨e, listed, asked⟩ := List.mem_filterMap.1 member
    exact List.mem_filterMap.2 ⟨e, List.mem_append_left _ listed, asked⟩
  have spelled : (w.afterAll events).files.absolute p ∈
      spellings w.files (events ++ [.decls p marker]) := by
    refine List.mem_filterMap.2 ⟨.decls p marker, by simp, ?_⟩
    exact Event.spelling?_congr (w.cwd_afterAll events).symm (.decls p marker)
  exact (yields_fileDecls single spelled marker _ sound).1

/-- The search for the marker changes no result. A source file in which the marker does not occur
has no annotated declarations, if its comments are parts of it. So, whatever was written, parsed and
asked before, the declarations of a file that can be parsed are those that extracting finds in it
without the search. -/
theorem decls_unfiltered (marker : String) :
    (∀ unit : SourceUnit, QuotesSource unit → ¬marker.toList <:+: unit.source.toList →
      annotatedDecls unit marker = []) ∧
    ∀ (w : Workspace) (events : List Event) (p : Path) (content : Bytes) (unit : SourceUnit),
      w.memory.caches = {} →
      (spellings w.files (events ++ [.decls p marker])).InjOn Path.components →
      ((w.afterAll events).files.absolute p).isGoFile = true →
      (w.afterAll events).files.read ((w.afterAll events).files.absolute p) = .ok content →
      sourceUnit ((w.afterAll events).files.absolute p) content = .ok unit →
      QuotesSource unit ∧
        ((w.afterAll events).ask (fileDecls p marker)).1 = .ok (annotatedDecls unit marker) := by
  refine ⟨fun unit => annotatedDecls_eq_nil, ?_⟩
  intro w events p content unit new single named read parsed
  obtain ⟨-, quotes⟩ := quotesSource_of_sourceUnit parsed
  refine ⟨quotes, (fileDecls_afterAll new single).trans ?_⟩
  exact plainDecls_of_parses named read parsed marker

/-- The marker is spread over two comments, and written whole in none. -/
theorem decls_unfiltered_spread :
    let source := "package a\n\n// +gen\n// :api\ntype T int // :\n"
    let files : FileTree := ⟨"/", Dict.ofList [(["a.go"], .file (Utf8.ofString source))]⟩
    let w : Workspace := { world := ⟨files, .offline⟩ }
    ∃ unit, sourceUnit "/a.go" (Utf8.ofString source) = .ok unit ∧ QuotesSource unit ∧
      annotatedDecls unit "+gen:" = [] ∧ (w.ask (fileDecls "a.go" "+gen:")).1 = .ok [] := by
  intro source files w
  have parses : (sourceUnit "/a.go" (Utf8.ofString source)).toOption.isSome = true := by
    decide +kernel
  have missing : containsBytes (Utf8.ofString "+gen:") (Utf8.ofString source) = false := by
    decide +kernel
  cases parsed : sourceUnit "/a.go" (Utf8.ofString source) with
  | error e =>
    rw [parsed] at parses
    cases parses
  | ok unit =>
    have single : (spellings w.files [.decls "a.go" "+gen:"]).Subsingleton := by
      intro p member q member'
      change p ∈ [w.files.absolute "a.go"] at member
      change q ∈ [w.files.absolute "a.go"] at member'
      rw [List.mem_singleton.1 member, List.mem_singleton.1 member']
    have here : (w.afterAll []).files.absolute "a.go" = "/a.go" := by decide +kernel
    obtain ⟨quotes, answer⟩ := (decls_unfiltered "+gen:").2 w [] "a.go" (Utf8.ofString source) unit
      rfl (single.injOn _) (by decide +kernel) (by decide +kernel) (by rw [here, parsed])
    have absent : ¬"+gen:".toList <:+: unit.source.toList := by
      intro inside
      rw [(quotesSource_of_sourceUnit parsed).1, containsBytes_of_within inside] at missing
      cases missing
    have undeclared := (decls_unfiltered "+gen:").1 unit quotes absent
    rw [undeclared] at answer
    exact ⟨unit, rfl, quotes, undeclared, answer⟩

end Workspace
end Marginalia
