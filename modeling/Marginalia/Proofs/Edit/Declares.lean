/-
Module: Marginalia.Proofs.Edit.Declares
Purpose: When the file that an edit writes declares the imports that the edit has staged.
Main exports:
  lastBlock?_cases, extends_block, HeaderPlace, extends_insertions, FileEdit.addEach, Staged,
  FileEdit.apply_declares, FileEdit.apply_declares_mixed, FileEdit.apply_undeclared
-/
import Marginalia.Proofs.Edit.Apply
import Marginalia.Proofs.Edit.Landing
import Marginalia.Proofs.Edit.NewBlock
import Marginalia.Proofs.Layout.Canonical

namespace Marginalia

open Go

namespace Edit

open Go.Grammar (DeclWords Draft EndedBefore Header Item ItemsBefore SpecWords TopBefore TopItem
  declDrafts topWords wordsOf)

/-! ### Files with a block -/

theorem lastBlock?_cons (d : ImportDecl) (ds : List ImportDecl) :
    lastBlock? (d :: ds) = (lastBlock? ds).or (d.close.map (d, ·)) := by
  rw [lastBlock?, List.reverse_cons, List.findSome?_append]
  congr 1
  simp

/-- The last block of a header, if there is one, with its closing parenthesis. -/
theorem lastBlock?_cases {rest : List Word} {items : List TopItem} (before : TopBefore rest items)
    (start stop : Nat → Point) (source : String) :
    let decl := fun d : DeclWords × Nat =>
      importDecl source (Node.locate start stop (d.1.draft d.2))
    lastBlock? ((declDrafts rest.length items).map decl) = none ∨
      ∃ above key opening its close sep below,
        items = above ++ ⟨.block key opening its close, sep⟩ :: below ∧
        lastBlock? ((declDrafts rest.length items).map decl) =
          some (decl (.block key opening its close,
              (sep.toList ++ (topWords below ++ rest)).length),
            (start ((sep.toList ++ (topWords below ++ rest)).length + 1)).offset) := by
  intro decl
  induction items with
  | nil => exact .inl rfl
  | cons i items ih =>
    obtain ⟨⟨valid, -⟩, later⟩ := before
    have step : (declDrafts rest.length (i :: items)).map decl =
        decl (i.decl, (i.sep.toList ++ (topWords items ++ rest)).length) ::
          (declDrafts rest.length items).map decl := by
      rw [declDrafts, List.map_cons, List.length_append, List.length_append]
    rw [step, lastBlock?_cons]
    rcases ih later with blockless | ⟨above, key, opening, its, close, sep, below, split, found⟩
    · obtain ⟨declared, sep⟩ := i
      cases declared with
      | single key spec =>
        refine .inl ?_
        rw [blockless, Grammar.close_single]
        rfl
      | block key opening its close =>
        refine .inr ⟨[], key, opening, its, close, sep, items, rfl, ?_⟩
        rw [blockless, Grammar.close_block valid.2.2.1]
        rfl
    · refine .inr ⟨i :: above, key, opening, its, close, sep, below, by rw [split]; rfl, ?_⟩
      rw [found]
      rfl

/-- The insertions into a block make a file that declares the added imports. -/
theorem extends_block {segments : List Segment} {h : Header} {ds : List Draft}
    (parsed : Parsed segments h ds) (same : words false segments = h.words)
    {above below : List TopItem} {key opening close : Word} {its : List Item} {sep : Option Word}
    (items : h.items = above ++ ⟨.block key opening its close, sep⟩ :: below) {k offset : Nat}
    (size : k = (sep.toList ++ (topWords below ++ h.rest)).length)
    (closing : offset = (startOf segments (k + 1)).offset) {decl : ImportDecl}
    (located : decl = importDecl (String.ofList (textOf segments)) (Node.locate (startOf segments)
      (stopOf segments) (DeclWords.draft (.block key opening its close) k)))
    {added : Imports} (writable : ∀ i ∈ added, i.Writable)
    (uncut : ∀ i ∈ added,
      Lexeme.Uncut (textOf segments) (placeSpec (textOf segments) decl offset i).1) :
    Extends segments h ds (blockInsertions (textOf segments) decl offset added) added := by
  have valid := parsed.valid
  have before := valid.items
  rw [items, Grammar.topBefore_append] at before
  obtain ⟨first, ⟨⟨keyed, opens, inner, closes⟩, ended⟩, later⟩ := before
  generalize back : sep.toList ++ (topWords below ++ h.rest) = behind at size
  have opened : Opened segments (h.key :: h.name :: (h.sep.toList ++ (topWords above ++
      [key, opening]))) its close behind := {
    scanned := parsed.scanned
    real := parsed.real
    words := by
      rw [same, ← back]
      simp [Header.words, Header.behind, items, topWords, TopItem.words, DeclWords.words]
    before := inner
    closes := closes
    header := by
      intro w member
      refine valid.header w ?_
      rw [items]
      simp only [topWords, TopItem.words, DeclWords.words, List.flatMap_append, List.flatMap_cons,
        List.mem_append, List.mem_cons] at member ⊢
      tauto
    opening := ⟨opening, by simp [List.getLast?_cons, List.getLast?_append], opens⟩ }
  have listed : Listed segments its behind decl offset := by
    refine ⟨fun x member => ?_, by rw [closing, size]⟩
    rw [located, size] at member
    exact Grammar.exists_item_of_mem member
  obtain ⟨grown, scanned, real, spliced, items', close', read, inner', closes', perm⟩ :=
    opened.exists_grown_block listed writable uncut
  have valid' : (DeclWords.block key opening items' close').Valid := ⟨keyed, opens, inner', closes'⟩
  refine ⟨grown, { h with items := above ++ ⟨.block key opening items' close', sep⟩ :: below },
    ⟨scanned, real, ?_, ?_, parsed.rest, parsed.clauseless, parsed.importless⟩, spliced, ?_⟩
  · rw [read, ← back]
    simp [Header.words, Header.behind, topWords, TopItem.words, DeclWords.words]
  · -- the block still begins with the same word
    have head (rest : List Word) :
        (topWords (⟨.block key opening items' close', sep⟩ :: below) ++ rest).head? =
          (topWords (⟨.block key opening its close, sep⟩ :: below) ++ rest).head? := by
      rw [Grammar.head?_topWords_append, Grammar.head?_topWords_append]
      rfl
    refine ⟨valid.keyed, valid.named, valid.ended.change (.inl ?_),
      Grammar.topBefore_append.2 ⟨first.change (.inl (head _)), ⟨valid', ended⟩, later⟩⟩
    rw [Header.behind, Header.behind, items]
    cases above with
    | nil => exact head _
    | cons i above =>
      rw [List.cons_append, List.cons_append, Grammar.head?_topWords_append,
        Grammar.head?_topWords_append]
  · simp only [Header.specs, items, List.flatMap_append, List.flatMap_cons, DeclWords.specs,
      List.map_append, List.map_map, List.append_assoc]
    refine List.Perm.append_left _ ?_
    refine (perm.append_right _).trans ?_
    rw [List.append_assoc]
    exact List.perm_append_comm.append_left _

/-! ### Files without a block -/

theorem getLast?_declDrafts (init : List TopItem) (i : TopItem) (k : Nat) :
    (declDrafts k (init ++ [i])).getLast? = some (i.decl, i.sep.toList.length + k) := by
  induction init with
  | nil => simp [declDrafts, topWords]
  | cons j init ih => rw [List.cons_append, declDrafts, List.getLast?_cons, ih]; rfl

end Edit

/-! ### Places in headers -/

/-- An offset where text can be put into the header of a file: it lies in no lexeme, and no
declaration but those of the header starts before it. -/
structure HeaderPlace (source : List Char) (tree : Tree) (offset : Nat) : Prop where
  uncut : Lexeme.Uncut source offset
  early : ∀ t ∈ tree.children, Grammar.isBody t.kind → offset ≤ t.start.offset

theorem headerPlace_iff (source : List Char) (tree : Tree) (offset : Nat) :
    HeaderPlace source tree offset ↔ Lexeme.Uncut source offset ∧
      ∀ t ∈ tree.children, Grammar.isBody t.kind → offset ≤ t.start.offset :=
  ⟨fun place => ⟨place.uncut, place.early⟩, fun ⟨uncut, early⟩ => ⟨uncut, early⟩⟩

instance (source : List Char) (tree : Tree) : DecidablePred (HeaderPlace source tree) :=
  fun offset => decidable_of_iff' _ (headerPlace_iff source tree offset)

namespace Edit

open Go.Grammar (DeclWords Draft EndedBefore Header Item ItemsBefore SpecWords TopBefore TopItem
  declDrafts topWords wordsOf)

/-- The insertions make a file that declares the added imports, if all of them go to places in the
header. -/
theorem extends_insertions {segments : List Segment} {h : Header} {ds : List Draft}
    (parsed : Parsed segments h ds) (same : words false segments = h.words) {unit : SourceUnit}
    (source : unit.source = String.ofList (textOf segments))
    (clause : unit.packageSpan.stop =
      (stopOf segments (h.sep.toList.length + h.behind.length + 1)).offset)
    (decls : unit.importDecls = (declDrafts h.rest.length h.items).map fun d =>
      importDecl (String.ofList (textOf segments))
        (Node.locate (startOf segments) (stopOf segments) (d.1.draft d.2)))
    {added : Imports} (writable : ∀ i ∈ added, i.Writable) (nonempty : added ≠ [])
    (nodup : added.Nodup)
    (places : ∀ r ∈ importInsertions unit added,
      HeaderPlace (textOf segments) (treeOf segments (h.drafts ++ ds)) r.span.start) :
    Extends segments h ds (importInsertions unit added) added := by
  unfold importInsertions at places ⊢
  simp only [source, String.toList_ofList, decls, clause] at places ⊢
  rcases lastBlock?_cases parsed.valid.items (startOf segments) (stopOf segments)
    (String.ofList (textOf segments)) with
    blockless | ⟨above, key, opening, its, close, sep, below, split, found⟩
  · rw [blockless] at places ⊢
    rcases List.eq_nil_or_concat h.items with bare | ⟨init, last, items⟩
    · rw [bare] at places ⊢
      exact extends_after_clause parsed same bare writable nonempty nodup
    · rw [List.concat_eq_append] at items
      rw [items, List.getLast?_map, getLast?_declDrafts] at places ⊢
      have place := places _ List.mem_cons_self
      refine extends_after_imports parsed same items writable nonempty nodup ?_ place.uncut
        fun more => ?_
      · rfl
      · obtain ⟨d, member, body, start⟩ :=
          Grammar.exists_body parsed.rest parsed.clauseless parsed.importless more
        obtain ⟨t, child, kind, begins⟩ := exists_child segments
          (List.mem_append_right h.drafts member) (Grammar.isContent_of_isBody body).1
        have early := place.early t child (by rw [kind]; exact body)
        rwa [begins, start] at early
  · rw [found] at places ⊢
    dsimp only at places ⊢
    refine extends_block parsed same split rfl rfl rfl writable fun i member => ?_
    obtain ⟨e, entry, start⟩ := List.mem_map.1 (mem_keys_placeAll member)
    rw [blockInsertions_eq] at places
    have place := places _ (List.mem_map_of_mem entry)
    rw [start_asInsertion, start] at place
    exact place.uncut

end Edit

/-! ### Staged imports -/

namespace FileEdit

/-- Add imports, path after path. -/
def addEach (e : FileEdit) (paths : List String) : FileEdit :=
  paths.foldl (fun e path => (e.addImport path).2) e

end FileEdit

/-- New imports behind those of a file: each is visible, and can be written. -/
structure Staged (base new : Imports) : Prop where
  nodup : new.Nodup
  fresh : ∀ i ∈ new, i ∉ base
  writable : ∀ i ∈ new, i.Writable

/-- A call adds an import that is not there yet, or none. -/
theorem Staged.add {base new : Imports} (staged : Staged base new) {path : String}
    (spelled : Spelled path) (qualifier : Qualifier (defaultImportName path)) :
    ∃ new', (Imports.add (base ++ new) path).2 = base ++ new' ∧ Staged base new' := by
  rcases Imports.addNamed_cases (base ++ new) path (defaultImportName path) with
    ⟨i, -, -, -, same⟩ | ⟨hidden, appended⟩
  · exact ⟨new, congrArg Prod.snd same, staged⟩
  generalize named : Imports.fresh (Imports.taken (base ++ new)) (defaultImportName path) = name
    at appended
  have usable : Qualifier name := by
    rw [← named, Imports.qualifier_fresh_iff]
    exact ⟨qualifier.word, .inr ⟨qualifier.notBlank, qualifier.notReserved⟩⟩
  have visible : (Imports.written path name).isHidden = false := by
    refine Imports.isHidden_written usable.notBlank ?_
    rintro rfl
    exact absurd usable.word (by decide)
  -- the imports of the path so far are hidden, so this one is new
  have absent : Imports.written path name ∉ base ++ new := by
    intro member
    rw [hidden _ member rfl] at visible
    cases visible
  rw [List.mem_append, not_or] at absent
  refine ⟨new ++ [Imports.written path name], ?_, ?_, ?_, ?_⟩
  · rw [Imports.add, appended, List.append_assoc]
  · exact List.nodup_append'.2 ⟨staged.nodup, List.nodup_singleton _,
      List.disjoint_singleton.2 absent.2⟩
  · exact List.forall_mem_append.2 ⟨staged.fresh, List.forall_mem_singleton.2 absent.1⟩
  · refine List.forall_mem_append.2
      ⟨staged.writable, List.forall_mem_singleton.2 ⟨?_, spelled.chars⟩⟩
    intro n alias_
    unfold Imports.written at alias_
    split at alias_
    · cases alias_
    · obtain rfl := Option.some.inj alias_
      exact usable.word

theorem Staged.nil (base : Imports) : Staged base [] :=
  ⟨.nil, by simp, by simp⟩

/-- Calls add imports that are not there yet. -/
theorem Staged.addEach {base new : Imports} (staged : Staged base new) {paths : List String}
    (spelled : ∀ path ∈ paths, Spelled path ∧ Qualifier (defaultImportName path)) :
    ∃ new', paths.foldl (fun imports path => (imports.add path).2) (base ++ new) = base ++ new' ∧
      Staged base new' := by
  induction paths generalizing new with
  | nil => exact ⟨new, rfl, staged⟩
  | cons path paths ih =>
    obtain ⟨first, others⟩ := List.forall_mem_cons.1 spelled
    obtain ⟨new', same, next⟩ := staged.add first.1 first.2
    rw [List.foldl_cons, same]
    exact ih next others

theorem Staged.perm_added {base new : Imports} (staged : Staged base new) :
    ((base ++ new).addedSince base).Perm new := by
  refine (List.perm_ext_iff_of_nodup (Imports.nodup_inOrder _) staged.nodup).2 fun i => ?_
  refine (Imports.mem_addedSince : _ ↔ i ∈ base ++ new ∧ i ∉ base).trans ?_
  rw [List.mem_append]
  constructor
  · rintro ⟨member, absent⟩
    exact member.resolve_left absent
  · intro member
    exact ⟨.inr member, staged.fresh i member⟩

/-! ### What the written file declares -/

namespace FileEdit

open Edit (exists_unit importing importInsertions lastBlock?)

theorem addEach_importing (unit : SourceUnit) (imports : Imports) (paths : List String) :
    (importing unit imports).addEach paths =
      importing unit (paths.foldl (fun imports path => (imports.add path).2) imports) := by
  induction paths generalizing imports with
  | nil => rfl
  | cons path paths ih => exact ih _

theorem inOrder_importInsertions (unit : SourceUnit) (added : Imports) :
    Edit.inOrder (Edit.importInsertions unit added) = Edit.importInsertions unit added := by
  unfold Edit.importInsertions
  split
  · exact Edit.inOrder_blockInsertions ..
  · exact List.mergeSort_singleton _

/-- The replacements of an edit that adds imports are the insertions. -/
theorem replacements_eq_insertions (unit : SourceUnit) (imports : Imports) :
    (importing unit imports).replacements =
      if imports.addedSince unit.imports = [] then []
      else Edit.importInsertions unit (imports.addedSince unit.imports) := by
  have insertions : (importing unit imports).replacements =
      Edit.inOrder (if (imports.addedSince unit.imports).isEmpty then []
        else Edit.importInsertions unit (imports.addedSince unit.imports)) := rfl
  rw [insertions]
  by_cases empty : imports.addedSince unit.imports = []
  · rw [if_pos empty, if_pos (List.isEmpty_iff.2 empty), Edit.inOrder, List.mergeSort_nil]
  · rw [if_neg empty, if_neg (mt List.isEmpty_iff.1 empty), inOrder_importInsertions]

/-- The replacements of an edit make a file that declares the imports it adds. -/
theorem extends_replacements {segments : List Segment} {h : Grammar.Header}
    {ds : List Grammar.Draft} (parsed : Parsed segments h ds)
    (same : words false segments = h.words) {unit : SourceUnit}
    (source : unit.source = String.ofList (textOf segments))
    (clause : unit.packageSpan.stop =
      (stopOf segments (h.sep.toList.length + h.behind.length + 1)).offset)
    (decls : unit.importDecls = (Grammar.declDrafts h.rest.length h.items).map fun d =>
      importDecl (String.ofList (textOf segments))
        (Node.locate (startOf segments) (stopOf segments) (d.1.draft d.2)))
    {new : Imports} (staged : Staged unit.imports new)
    (places : ∀ r ∈ (importing unit (unit.imports ++ new)).replacements,
      HeaderPlace (textOf segments) (treeOf segments (h.drafts ++ ds)) r.span.start) :
    Edit.Extends segments h ds (importing unit (unit.imports ++ new)).replacements new := by
  have perm := staged.perm_added
  rw [replacements_eq_insertions] at places ⊢
  generalize (unit.imports ++ new).addedSince unit.imports = added at perm places ⊢
  by_cases empty : added = []
  · obtain rfl := List.nil_perm.1 (empty ▸ perm)
    refine ⟨segments, h, parsed, ?_, by simp⟩
    rw [if_pos empty]
    rfl
  · rw [if_neg empty] at places ⊢
    obtain ⟨segments', h', parsed', spliced, declared⟩ :=
      Edit.extends_insertions parsed same source clause decls
        (fun i member => staged.writable i (perm.mem_iff.1 member)) empty
        (perm.nodup_iff.2 staged.nodup) places
    exact ⟨segments', h', parsed', spliced, declared.trans (perm.append_left _)⟩

/-- An edit that adds imports is written, if its changes make the text of a source file. -/
theorem apply_of_spliced {unit : SourceUnit} {imports : Imports} {files : FileTree}
    {text : List Char} (fresh : files.read unit.path = .ok (Utf8.ofString unit.source))
    (spliced : Edit.splice (Utf8.ofString unit.source) (importing unit imports).replacements =
      .ok (Utf8.encode text))
    (parses : (Tree.parse? text).isSome) :
    ∃ after, (importing unit imports).apply files = .ok after ∧
      after.read unit.path = .ok (laidOut text) := by
  rw [replacements_eq] at spliced
  obtain ⟨inRange, disjoint, made⟩ := Edit.splice_inOrder_eq_ok_iff.1 spliced
  have fits : (importing unit imports).Fits files := ⟨fresh, inRange, disjoint⟩
  obtain ⟨after, applied, reads⟩ := apply_of_fits fits made.symm parses
  exact ⟨after, applied, (reads unit.path).trans (if_pos rfl)⟩

/-- An edit that adds imports at places in the header writes a file, and that file declares just the
imports that the edit has staged. -/
theorem apply_declares {path : Path} {source : String} {unit : SourceUnit} {tree : Tree}
    (parsed : SourceUnit.parse path source = .ok unit)
    (read : Tree.parse? source.toList = some tree) (headed : tree.headerFirst)
    {paths : List String}
    (spelled : ∀ p ∈ paths, Spelled p ∧ Qualifier (defaultImportName p))
    (places : ∀ r ∈ ((ofUnit unit).addEach paths).replacements,
      HeaderPlace source.toList tree r.span.start)
    {files : FileTree} (fresh : files.read path = .ok (Utf8.ofString source)) :
    ∃ after text unit', ((ofUnit unit).addEach paths).apply files = .ok after ∧
      after.read path = .ok (Utf8.ofString text) ∧ SourceUnit.parse path text = .ok unit' ∧
      unit'.imports.Perm ((ofUnit unit).addEach paths).imports := by
  obtain ⟨segments, h, ds, text, whole, same, rfl⟩ := exists_parsed read headed
  have known : source = String.ofList (textOf segments) := by rw [text, String.ofList_toList]
  obtain ⟨unit', parsed', here, content, imports, clause, decls⟩ := whole.exists_unit path
  rw [← known, parsed, Except.ok.injEq] at parsed'
  subst parsed'
  obtain ⟨new, listed, staged⟩ := (Staged.nil unit.imports).addEach spelled
  have added : (ofUnit unit).addEach paths = importing unit (unit.imports ++ new) := by
    rw [← listed, List.append_nil]
    exact addEach_importing unit unit.imports paths
  rw [added] at places ⊢
  rw [← text] at places
  obtain ⟨grown, h', extended, spliced, declared⟩ :=
    extends_replacements whole same content clause decls staged places
  have bytes : Utf8.ofString unit.source = Utf8.encode (textOf segments) := by
    rw [content, Utf8.ofString, String.toList_ofList]
  obtain ⟨after, applied, written⟩ := apply_of_spliced (by rw [here, content, ← known, fresh])
    (bytes ▸ spliced) (by rw [extended.parse?_eq_some]; rfl)
  obtain ⟨laid, scanned, real, layout, kept⟩ :=
    Layout.exists_canonical extended.scanned extended.real
  have final : Parsed laid h' ds := { extended with
    scanned := scanned
    real := real
    words := kept.trans extended.words }
  obtain ⟨unit', parsed', -, -, imports', -, -⟩ := final.exists_unit path
  refine ⟨after, String.ofList (textOf laid), unit', applied, ?_, parsed', ?_⟩
  · rw [← here, written, laidOut, ← layout, Utf8.ofString, String.toList_ofList]
  · rw [imports']
    refine declared.trans ?_
    rw [← imports]
    rfl

/-- A block with a comment between its specs, two of them on one line with the closing
parenthesis: one new import goes above the comment, one between the two, and one before the
parenthesis. -/
theorem apply_declares_mixed :
    let source :=
      "package a\n\nimport (\n\t\"fmt\"\n\t// logging\n\t\"log\"; \"os\")\n\nfunc f() {}\n"
    let paths := ["io", "net/http", "time"]
    let files : FileTree := ⟨"/", Dict.ofList [(["a.go"], .file (Utf8.ofString source))]⟩
    ∃ unit tree after text unit', SourceUnit.parse "/a.go" source = .ok unit ∧
      Tree.parse? source.toList = some tree ∧
      (∀ r ∈ ((ofUnit unit).addEach paths).replacements,
        HeaderPlace source.toList tree r.span.start) ∧
      ((ofUnit unit).addEach paths).apply files = .ok after ∧
      after.read "/a.go" = .ok (Utf8.ofString text) ∧
      SourceUnit.parse "/a.go" text = .ok unit' ∧
      unit'.imports.Perm [⟨none, "fmt"⟩, ⟨none, "log"⟩, ⟨none, "os"⟩, ⟨none, "io"⟩,
        ⟨none, "net/http"⟩, ⟨none, "time"⟩] := by
  intro source paths files
  have read : (SourceUnit.parse "/a.go" source).toOption.map (fun unit => (unit.imports,
      (importInsertions unit [⟨none, "io"⟩, ⟨none, "net/http"⟩, ⟨none, "time"⟩]).map
        (·.span.start))) =
      some ([⟨none, "fmt"⟩, ⟨none, "log"⟩, ⟨none, "os"⟩], [27, 47, 51]) := by
    decide +kernel
  have found : ((Tree.parse? source.toList).any fun tree => tree.headerFirst &&
      [27, 47, 51].all fun offset => decide (HeaderPlace source.toList tree offset)) = true := by
    decide +kernel
  have spelled : ∀ p ∈ paths, Spelled p ∧ Qualifier (defaultImportName p) := by decide +kernel
  have fresh : files.read "/a.go" = .ok (Utf8.ofString source) := by decide +kernel
  have added : Imports.addedSince [⟨none, "fmt"⟩, ⟨none, "log"⟩, ⟨none, "os"⟩, ⟨none, "io"⟩,
      ⟨none, "net/http"⟩, ⟨none, "time"⟩] [⟨none, "fmt"⟩, ⟨none, "log"⟩, ⟨none, "os"⟩] =
      [⟨none, "io"⟩, ⟨none, "net/http"⟩, ⟨none, "time"⟩] := by
    rw [Imports.addedSince, Imports.inOrder, List.mergeSort_of_pairwise (by decide +kernel)]
    decide +kernel
  obtain ⟨unit, parsed, view⟩ := exists_unit read
  obtain ⟨imports, starts⟩ := Prod.mk.inj view
  obtain ⟨tree, known, holds⟩ := (Option.any_eq_true ..).1 found
  simp only [Bool.and_eq_true, List.all_eq_true, decide_eq_true_eq] at holds
  obtain ⟨headed, places⟩ := holds
  have staged : (ofUnit unit).addEach paths = importing unit [⟨none, "fmt"⟩, ⟨none, "log"⟩,
      ⟨none, "os"⟩, ⟨none, "io"⟩, ⟨none, "net/http"⟩, ⟨none, "time"⟩] := by
    refine (addEach_importing unit unit.imports _).trans (congrArg (importing unit) ?_)
    rw [imports]
    decide +kernel
  have inHeader : ∀ r ∈ ((ofUnit unit).addEach paths).replacements,
      HeaderPlace source.toList tree r.span.start := by
    rw [staged, replacements_eq_insertions, imports, added, if_neg (List.cons_ne_nil _ _)]
    intro r member
    exact places _ (starts ▸ List.mem_map_of_mem member)
  obtain ⟨after, text, unit', applied, written, parsed', perm⟩ :=
    apply_declares parsed known headed spelled inHeader fresh
  rw [staged] at perm
  exact ⟨unit, tree, after, text, unit', parsed, known, inHeader, applied, written, parsed', perm⟩

/-- Where a block comment begins on the line of the last import and goes on below, the end of that
line is inside the comment: the file is written, and declares only what it declared before. -/
theorem apply_undeclared :
    let source := "package a\n\nimport \"fmt\" /* one\ntwo */\n"
    let text := "package a\n\nimport \"fmt\" /* one\n\nimport (\n\t\"os\"\n)\ntwo */\n"
    let files : FileTree := ⟨"/", Dict.ofList [(["a.go"], .file (Utf8.ofString source))]⟩
    (Tree.parse? source.toList).any Tree.headerFirst ∧
      Spelled "os" ∧ Qualifier (defaultImportName "os") ∧
      ∃ unit after unit', SourceUnit.parse "/a.go" source = .ok unit ∧
        ((ofUnit unit).addEach ["os"]).apply files = .ok after ∧
        after.read "/a.go" = .ok (Utf8.ofString text) ∧
        SourceUnit.parse "/a.go" text = .ok unit' ∧
        unit'.imports = [⟨none, "fmt"⟩] ∧
        ¬unit'.imports.Perm ((ofUnit unit).addEach ["os"]).imports := by
  intro source text files
  have read : (SourceUnit.parse "/a.go" source).toOption.map (fun unit =>
      (unit.path, unit.source, unit.imports, lastBlock? unit.importDecls)) =
      some ("/a.go", source, [⟨none, "fmt"⟩], none) := by
    decide +kernel
  have ends : (SourceUnit.parse "/a.go" source).toOption.map (fun unit =>
      unit.importDecls.getLast?.map (·.span.stop)) = some (some 23) := by
    decide +kernel
  have reread : (SourceUnit.parse "/a.go" text).toOption.map (·.imports) =
      some [⟨none, "fmt"⟩] := by
    decide +kernel
  obtain ⟨unit, parsed, view⟩ := exists_unit read
  obtain ⟨unit', parsed', imports'⟩ := exists_unit reread
  obtain ⟨same, parsedAgain, last⟩ := exists_unit ends
  obtain rfl := Except.ok.inj (parsed.symm.trans parsedAgain)
  obtain ⟨decl, final, stop⟩ := Option.map_eq_some_iff.1 last
  simp only [Prod.mk.injEq] at view
  obtain ⟨path, whole, imports, blockless⟩ := view
  have staged : (ofUnit unit).addEach ["os"] = importing unit [⟨none, "fmt"⟩, ⟨none, "os"⟩] := by
    refine (addEach_importing unit unit.imports _).trans (congrArg (importing unit) ?_)
    rw [imports]
    decide +kernel
  have added : Imports.addedSince [⟨none, "fmt"⟩, ⟨none, "os"⟩] unit.imports = [⟨none, "os"⟩] := by
    rw [imports, Imports.addedSince, Imports.inOrder,
      List.mergeSort_of_pairwise (by decide +kernel)]
    decide +kernel
  have rendered : Imports.render [⟨none, "os"⟩] = "import (\n\t\"os\"\n)" := by
    rw [Imports.render, Imports.inOrder, List.mergeSort_singleton]
    decide +kernel
  -- the one insertion is in the comment
  have inserted : (importing unit [⟨none, "fmt"⟩, ⟨none, "os"⟩]).replacements =
      [Edit.insertAt 30 "\n\nimport (\n\t\"os\"\n)"] := by
    rw [replacements_eq_insertions, added, if_neg (List.cons_ne_nil _ _), Edit.importInsertions]
    simp only [blockless, final, stop, whole, rendered]
    decide +kernel
  have spliced : Edit.splice (Utf8.ofString unit.source)
      (importing unit [⟨none, "fmt"⟩, ⟨none, "os"⟩]).replacements =
      .ok (Utf8.encode text.toList) := by
    rw [inserted, whole]
    decide +kernel
  have fresh : files.read unit.path = .ok (Utf8.ofString unit.source) := by
    rw [path, whole]
    decide +kernel
  obtain ⟨after, applied, written⟩ := apply_of_spliced fresh spliced (by decide +kernel)
  have laid : laidOut text.toList = Utf8.ofString text := by decide +kernel
  rw [path, laid] at written
  refine ⟨by decide +kernel, by decide +kernel, by decide +kernel, unit, after, unit', parsed,
    staged ▸ applied, written, parsed', imports', ?_⟩
  rw [staged, imports']
  exact fun perm => absurd perm.length_eq (Nat.ne_of_lt (Nat.lt_succ_self 1))

end FileEdit
end Marginalia
