/-
Module: Marginalia.Proofs.Resolve.Sources
Purpose: What the resolver sees of a file tree: directories, module files and package files, under
  any spelling of their paths.
Main exports:
  Resolve.isSource, Resolve.SameSources, Resolve.isDir_congr, Resolve.read_congr,
  Resolve.packageNames_congr, Resolve.packageFiles_congr, Resolve.sameSources_put
-/
import Marginalia.Proofs.FileTree.Place
import Marginalia.Resolve.Module

namespace Marginalia

namespace Resolve

/-! ### Sources -/

/-- Whether a name is that of a file which the resolver reads. -/
def isSourceName (name : String) : Bool :=
  name == modFileName || isPackageFile name

/-- Whether a place is one of a file which the resolver reads. -/
def isSource (place : List String) : Bool :=
  place.getLast?.any isSourceName

theorem plain_of_isSourceName {name : String} (source : isSourceName name = true) :
    name ≠ "/" ∧ name ≠ "." ∧ name ≠ ".." := by
  refine ⟨?_, ?_, ?_⟩ <;> rintro rfl <;> revert source <;> decide

theorem isVoid_of_isSourceName {name : String} (source : isSourceName name = true) :
    Path.isVoid name = false := by
  have dot := (plain_of_isSourceName source).2.1
  have empty : name ≠ "" := by
    rintro rfl
    revert source
    decide
  simp [Path.isVoid, dot, empty]

/-- A path ends with a text without slashes exactly when its last piece does. -/
theorem suffix_last_iff {p : Path} {last : String} {tail : List Char} (clear : '/' ∉ tail)
    (whole : p.toList = last.toList ∨ ∃ front, p.toList = front ++ '/' :: last.toList) :
    tail <:+ p.toList ↔ tail <:+ last.toList := by
  rcases whole with whole | ⟨front, whole⟩
  · rw [whole]
  · rw [whole]
    refine ⟨fun ends => ?_, fun ends => (ends.trans (List.suffix_cons _ _)).trans
      (List.suffix_append _ _)⟩
    rcases List.suffix_or_suffix_of_suffix ends (List.suffix_append front ('/' :: last.toList)) with
      inside | outside
    · rcases List.suffix_cons_iff.1 inside with rfl | inside
      · simp at clear
      · exact inside
    · exact absurd (outside.subset List.mem_cons_self) clear

/-- A file below a directory is a package file if its name is that of one. -/
theorem join_packageFile (dir : Path) {name : String} (source : isPackageFile name = true) :
    FileTree.namesDirectory (dir.join name) = false ∧
      ∃ init last, (dir.join name).components = init ++ [last] ∧ isSourceName last = true := by
  obtain ⟨last, ends, -, whole⟩ := Path.getLast?_pieces name
  have file : isPackageFile last = true := by
    simp only [isPackageFile, Bool.and_eq_true, Option.isNone_iff_eq_none,
      ← Option.not_isSome_iff_eq_none, Text.isSome_before?_iff] at source ⊢
    rwa [← suffix_last_iff (by decide) whole, ← suffix_last_iff (by decide) whole]
  have known : isSourceName last = true := by simp [isSourceName, file]
  have named := isVoid_of_isSourceName known
  rw [← Path.getLast?_pieces_join dir] at ends
  obtain ⟨init, components⟩ := Path.components_concat_of_getLast? ends named
  refine ⟨?_, init, last, components, known⟩
  rw [FileTree.namesDirectory, ends]
  exact named

/-- The same for module files. -/
theorem join_modFileName (dir : Path) :
    FileTree.namesDirectory (dir.join modFileName) = false ∧
      ∃ init, (dir.join modFileName).components = init ++ [modFileName] := by
  have ends : (dir.join modFileName).pieces.getLast? = some modFileName := by
    rw [Path.getLast?_pieces_join]
    decide
  refine ⟨?_, Path.components_concat_of_getLast? ends (by decide)⟩
  rw [FileTree.namesDirectory, ends]
  decide

/-- Two trees with the same directories, module files and package files. -/
structure SameSources (t t' : FileTree) : Prop where
  cwd : t.cwd = t'.cwd
  dirs : ∀ place, t.at? place = some .dir ↔ t'.at? place = some .dir
  sources : ∀ place, isSource place = true → ∀ content,
    t.at? place = some (.file content) ↔ t'.at? place = some (.file content)

theorem SameSources.refl (t : FileTree) : SameSources t t :=
  ⟨rfl, fun _ => Iff.rfl, fun _ _ _ => Iff.rfl⟩

/-- A file that is no source may be written without harm to the sources. -/
theorem sameSources_put {t : FileTree} {place : List String} (below : place ≠ [])
    (other : t.at? place ≠ some .dir) (harmless : isSource place = false) (content : Bytes) :
    SameSources t (t.put place (.file content)) := by
  refine ⟨rfl, FileTree.dir_iff_put below other content, fun place' source content' => ?_⟩
  rw [FileTree.at?_put t below, if_neg]
  rintro rfl
  rw [harmless] at source
  cases source

theorem SameSources.trans {t₁ t₂ t₃ : FileTree} (first : SameSources t₁ t₂)
    (second : SameSources t₂ t₃) : SameSources t₁ t₃ :=
  ⟨first.cwd.trans second.cwd, fun place => (first.dirs place).trans (second.dirs place),
    fun place source content =>
      (first.sources place source content).trans (second.sources place source content)⟩

section SameTrees

variable {t t' : FileTree} (same : SameSources t t')

include same

theorem SameSources.absolute (p : Path) : t.absolute p = t'.absolute p := by
  unfold FileTree.absolute
  rw [same.cwd]

variable (rooted : t.cwd.isAbsolute = true)

include rooted

/-- Paths with the same components lead to the same places. -/
theorem place?_congr {p q : Path} (spelled : p.components = q.components) :
    t.place? p = t'.place? q := by
  have empty : p.isEmpty = q.isEmpty := by
    rw [Bool.eq_iff_iff, String.isEmpty_iff, String.isEmpty_iff, ← Path.components_eq_nil_iff,
      ← Path.components_eq_nil_iff, spelled]
  unfold FileTree.place?
  rw [empty, FileTree.absolute_congr rooted spelled, same.absolute,
    FileTree.follow_congr same.dirs]

theorem isDir_congr {p q : Path} (spelled : p.components = q.components) :
    t.isDir p = t'.isDir q := by
  rw [Bool.eq_iff_iff, FileTree.isDir_iff, FileTree.isDir_iff, place?_congr same rooted spelled]
  simp only [same.dirs]

omit same in
theorem isSource_of_place? {p : Path} {place init : List String} {last : String}
    (components : p.components = init ++ [last]) (source : isSourceName last = true)
    (led : t.place? p = some place) : isSource place = true := by
  have named := isVoid_of_isSourceName source
  obtain ⟨front, whole⟩ : ∃ front, (t.absolute p).components = front ++ [last] := by
    rw [FileTree.components_absolute rooted, components]
    split
    · exact ⟨init, rfl⟩
    · refine ⟨t.cwd.components ++ Path.solid init, ?_⟩
      rw [Path.solid_append]
      simp [Path.solid, named]
  unfold FileTree.place? at led
  split at led
  · cases led
  · rw [whole] at led
    cases followed : t.follow [] (front ++ [last]) with
    | error e => simp [followed, Except.toOption] at led
    | ok reached =>
      rw [followed] at led
      obtain rfl : reached = place := Option.some.inj led
      rw [isSource, FileTree.getLast?_of_follow (plain_of_isSourceName source) followed]
      exact source

/-- A source is read as the same content in both trees, under every spelling of its path. -/
theorem read_congr {p q : Path} (spelled : p.components = q.components)
    (written : FileTree.namesDirectory p = FileTree.namesDirectory q)
    (ends : ∃ init last, p.components = init ++ [last] ∧ isSourceName last = true) :
    (t.read p).toOption = (t'.read q).toOption := by
  obtain ⟨init, last, components, source⟩ := ends
  have option {e : Except IoError Bytes} {content : Bytes} :
      e.toOption = some content ↔ e = .ok content := by
    cases e <;> simp [Except.toOption]
  ext content
  rw [option, option, FileTree.read_eq_ok_iff_place?, FileTree.read_eq_ok_iff_place?, written,
    ← place?_congr same rooted spelled]
  refine exists_congr fun place => and_congr_right fun led => ?_
  rw [same.sources place (isSource_of_place? rooted components source led)]

end SameTrees

/-! ### Package files -/

/-- The name of a package file. -/
def packageName? : String × Entry → Option String
  | (name, .file _) => if isPackageFile name then some name else none
  | (_, .dir) => none

/-- The names of the package files at a place, in order. -/
def packageNamesAt (t : FileTree) (place : List String) : List String :=
  (t.childrenOf place).filterMap packageName?

/-- The names of the package files in a directory, in order. -/
def packageNames (t : FileTree) (dir : Path) : List String :=
  match t.children dir with
  | .error _ => []
  | .ok entries => entries.filterMap packageName?

theorem packageFiles_eq (t : FileTree) (dir : Path) :
    packageFiles t dir = (packageNames t dir).map (dir.join ·) := by
  unfold packageFiles packageNames
  cases t.children dir with
  | error e => rfl
  | ok entries =>
    simp only [List.map_filterMap]
    congr 1
    funext ⟨name, entry⟩
    cases entry with
    | dir => rfl
    | file content => cases source : isPackageFile name <;> simp [packageName?, source]

theorem isPackageFile_of_mem {t : FileTree} {dir : Path} {name : String}
    (member : name ∈ packageNames t dir) : isPackageFile name = true := by
  unfold packageNames at member
  split at member
  · cases member
  · obtain ⟨⟨name', entry⟩, -, picked⟩ := List.mem_filterMap.1 member
    cases entry with
    | dir => cases picked
    | file content =>
      simp only [packageName?, Option.ite_none_right_eq_some, Option.some.injEq] at picked
      rw [← picked.2]
      exact picked.1

theorem dropComponents_eq_some_iff {base all rest : List String} :
    Path.dropComponents base all = some rest ↔ all = base ++ rest := by
  induction base generalizing all with
  | nil => simp [Path.dropComponents]
  | cons b base ih =>
    cases all with
    | nil => simp [Path.dropComponents]
    | cons c all =>
      by_cases same : b = c
      · simp [Path.dropComponents, same, ih]
      · simp [Path.dropComponents, same, Ne.symm same]

/-- An entry that shows as a package file is a source. -/
def isSourceEntry (key : List String) : Entry → Bool
  | .file _ => isSource key
  | .dir => false

/-- The package files at a place show in the sources alone. -/
theorem packageNamesAt_eq (t : FileTree) (place : List String) :
    packageNamesAt t place =
      packageNamesAt { t with entries := t.entries.filter isSourceEntry } place := by
  rw [packageNamesAt, packageNamesAt, FileTree.childrenOf, FileTree.childrenOf,
    List.filterMap_filterMap, List.filterMap_filterMap, Dict.filter, List.filterMap_filter]
  congr 1
  funext listed
  obtain ⟨key, entry⟩ := listed
  dsimp only
  by_cases shown : isSourceEntry key entry = true
  · exact (if_pos shown).symm
  · refine Eq.trans ?_ (if_neg shown).symm
    -- what the filter leaves out gives no name
    split
    · rename_i name below
      rw [dropComponents_eq_some_iff] at below
      cases entry with
      | dir => rfl
      | file content =>
        have other : isPackageFile name = false := by
          rw [Bool.eq_false_iff]
          intro source
          apply shown
          simp [isSourceEntry, isSource, isSourceName, below, source]
        simp [packageName?, other]
    · rfl

section SameTrees

variable {t t' : FileTree} (same : SameSources t t')

include same

theorem packageNamesAt_congr (place : List String) :
    packageNamesAt t place = packageNamesAt t' place := by
  have sources : t.entries.filter isSourceEntry = t'.entries.filter isSourceEntry := by
    apply Dict.ext_get?
    intro key
    rw [Dict.get?_filter, Dict.get?_filter]
    ext entry
    rw [Option.filter_eq_some_iff, Option.filter_eq_some_iff]
    refine and_congr_left fun source => ?_
    cases entry with
    | dir => cases source
    | file content =>
      cases key with
      | nil => cases source
      | cons name names => exact same.sources (name :: names) source content
  rw [packageNamesAt_eq t, packageNamesAt_eq t', sources, same.cwd]

theorem packageNames_congr (rooted : t.cwd.isAbsolute = true) {p q : Path}
    (spelled : p.components = q.components) : packageNames t p = packageNames t' q := by
  have known {t : FileTree} {p : Path} {place : List String} (led : t.place? p = some place)
      (dir : t.at? place = some .dir) : packageNames t p = packageNamesAt t place := by
    rw [packageNames, FileTree.children_eq_ok_iff.2 ⟨place, led, dir, rfl⟩]
    rfl
  have unknown {t : FileTree} {p : Path}
      (absent : ¬∃ place, t.place? p = some place ∧ t.at? place = some .dir) :
      packageNames t p = [] := by
    rw [packageNames]
    split
    · rfl
    · rename_i children
      obtain ⟨place, led, dir, -⟩ := FileTree.children_eq_ok_iff.1 children
      exact absurd ⟨place, led, dir⟩ absent
  have places := place?_congr same rooted spelled
  by_cases dir : ∃ place, t.place? p = some place ∧ t.at? place = some .dir
  · obtain ⟨place, led, dir⟩ := dir
    rw [known led dir, known (places ▸ led) ((same.dirs place).1 dir), packageNamesAt_congr same]
  · rw [unknown dir, unknown]
    rintro ⟨place, led, dir'⟩
    exact dir ⟨place, places.trans led, (same.dirs place).2 dir'⟩

theorem packageFiles_congr (rooted : t.cwd.isAbsolute = true) (dir : Path) :
    packageFiles t dir = packageFiles t' dir := by
  rw [packageFiles_eq, packageFiles_eq, packageNames_congr same rooted rfl]

end SameTrees
end Resolve
end Marginalia
