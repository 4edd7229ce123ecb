/-
Module: Marginalia.Proofs.Workspace.Walk
Purpose: Which source files a walk lists, and in what order.
Main exports:
  FileTree.Named, FileTree.Listed, FileTree.Listed.length_le, FileTree.namesFrom,
  FileTree.mem_namesFrom, FileTree.Before, FileTree.namesFrom_sorted, FileTree.walk_eq_ok,
  FileTree.mem_namesBelow, FileTree.namesBelow_apart
-/
import Marginalia.Proofs.Resolve.Chain
import Marginalia.Proofs.Text.Utf8
import Marginalia.Workspace.Scan

namespace Marginalia

/-! ### Paths below a directory -/

theorem Path.below?_under {p : Path} (nonempty : p ≠ "") {names : List String}
    (named : ∀ name ∈ names, IsName name) : (p.under names).below? p = .some names := by
  rw [below?, Resolve.dropComponents_eq_some_iff]
  exact (components_under nonempty named).1

namespace FileTree

/-- Every name in a tree stands for itself in a path. -/
def Named (t : FileTree) : Prop :=
  ∀ entry ∈ t.entries.entries, ∀ name ∈ entry.1, Path.IsName name

instance (t : FileTree) : Decidable t.Named :=
  inferInstanceAs (Decidable (∀ entry ∈ t.entries.entries, ∀ name ∈ entry.1, Path.IsName name))

theorem Named.of_at? {t : FileTree} (named : t.Named) {place : List String} {e : Entry}
    (there : t.at? place = some e) : ∀ name ∈ place, Path.IsName name := by
  intro name member
  have filled : ¬place.isEmpty = true := by
    rw [List.isEmpty_iff]
    exact List.ne_nil_of_mem member
  rw [at?, if_neg filled, Dict.get?_eq_some_iff] at there
  exact named _ there name member

/-- The full path of what lies below a path has the names below it at its end. -/
theorem components_absolute_under (t : FileTree) {p : Path} (nonempty : p ≠ "")
    {names : List String} (named : ∀ name ∈ names, Path.IsName name) :
    (t.absolute (p.under names)).components = (t.absolute p).components ++ names := by
  obtain ⟨components, starts⟩ := Path.components_under nonempty named
  unfold absolute
  rw [starts]
  cases rooted : p.isAbsolute with
  | true => exact components
  | false =>
    simp only [Bool.false_eq_true, if_false]
    by_cases nowhere : t.cwd = ""
    · rw [Path.join_eq_right (.inr nowhere), Path.join_eq_right (.inr nowhere), components]
    · have relative : (p.under names).isAbsolute = false := starts.trans rooted
      rw [Path.components_join nowhere relative, Path.components_join nowhere rooted,
        Path.solid_pieces_of_relative relative, Path.solid_pieces_of_relative rooted, components,
        Path.solid_append, Path.solid_of_names named, List.append_assoc]

/-! ### What is listed -/

/-- A source file that a walk from a place is to list, by the names that lead to it: all that lies
on the way is a directory, and none of these below the start is one to be passed over. -/
structure Listed (t : FileTree) (skip : List String) (place : List String) (p : Path)
    (names : List String) : Prop where
  file : ∃ content, t.at? (place ++ names) = some (.file content)
  dirs : ∀ above below, names = above ++ below → below ≠ [] → t.at? (place ++ above) = some .dir
  walked : ∀ above name below, names = above ++ name :: below → below ≠ [] →
    isPruned skip name = false
  source : (p.under names).isGoFile = true

section Listed

variable {t : FileTree} {skip place : List String} {p : Path}

/-- A directory is not itself a file to be listed. -/
theorem Listed.ne_nil {names : List String} (listed : t.Listed skip place p names)
    (dir : t.at? place = some .dir) : names ≠ [] := by
  rintro rfl
  obtain ⟨content, file⟩ := listed.file
  rw [List.append_nil, dir] at file
  cases file

theorem listed_singleton (dir : t.at? place = some .dir) {name : String} :
    t.Listed skip place p [name] ↔
      (∃ content, t.at? (place ++ [name]) = some (.file content)) ∧
        (p.join name).isGoFile = true := by
  constructor
  · intro listed
    exact ⟨listed.file, listed.source⟩
  · rintro ⟨file, source⟩
    refine ⟨file, ?_, ?_, source⟩
    · intro above below split inside
      obtain ⟨rfl, -⟩ | ⟨-, rfl⟩ := List.singleton_eq_append_iff.1 split
      · rwa [List.append_nil]
      · exact absurd rfl inside
    · intro above name' below split inside
      have short := congrArg List.length split
      have := List.length_pos_iff.2 inside
      simp only [List.length_append, List.length_cons, List.length_nil] at short
      omega

theorem listed_cons (dir : t.at? place = some .dir) {name : String} {names : List String}
    (inside : names ≠ []) :
    t.Listed skip place p (name :: names) ↔
      t.at? (place ++ [name]) = some .dir ∧ isPruned skip name = false ∧
        t.Listed skip (place ++ [name]) (p.join name) names := by
  have behind (below : List String) : place ++ name :: below = place ++ [name] ++ below := by simp
  constructor
  · intro listed
    refine ⟨listed.dirs [name] names rfl inside, listed.walked [] name names rfl inside, ?_⟩
    refine ⟨?_, ?_, ?_, listed.source⟩
    · rw [← behind]
      exact listed.file
    · intro above below split filled
      rw [← behind]
      exact listed.dirs (name :: above) below (by rw [split, List.cons_append]) filled
    · intro above name' below split filled
      exact listed.walked (name :: above) name' below (by rw [split, List.cons_append]) filled
  · rintro ⟨next, kept, listed⟩
    refine ⟨?_, ?_, ?_, listed.source⟩
    · rw [behind]
      exact listed.file
    · intro above below split filled
      cases above with
      | nil => rwa [List.append_nil]
      | cons first above =>
        obtain ⟨rfl, rest⟩ := List.cons.inj split
        rw [behind]
        exact listed.dirs above below rest filled
    · intro above name' below split filled
      cases above with
      | nil =>
        obtain ⟨rfl, -⟩ := List.cons.inj split
        exact kept
      | cons first above =>
        obtain ⟨rfl, rest⟩ := List.cons.inj split
        exact listed.walked above name' below rest filled

/-- No file lies deeper than there are entries: all that lies on the way is one of them. -/
theorem Listed.length_le {names : List String} (listed : t.Listed skip place p names) :
    names.length ≤ t.entries.size := by
  let keys := (List.range names.length).map fun n => place ++ names.take (n + 1)
  have known : keys ⊆ t.entries.keys := by
    intro key member
    obtain ⟨n, inside, rfl⟩ := List.mem_map.1 member
    have inside := List.mem_range.1 inside
    have filled : ¬(place ++ names.take (n + 1)).isEmpty = true := by
      cases names with
      | nil => cases inside
      | cons name names => simp
    obtain ⟨e, there⟩ : ∃ e, t.at? (place ++ names.take (n + 1)) = some e := by
      by_cases last : names.drop (n + 1) = []
      · obtain ⟨content, file⟩ := listed.file
        refine ⟨.file content, ?_⟩
        rwa [List.take_of_length_le (List.drop_eq_nil_iff.1 last)]
      · exact ⟨.dir, listed.dirs _ _ (List.take_append_drop _ _).symm last⟩
    rw [at?, if_neg filled, Dict.get?_eq_some_iff] at there
    exact List.mem_map.2 ⟨_, there, rfl⟩
  have distinct : keys.Nodup := by
    refine List.Nodup.map_on ?_ List.nodup_range
    intro n inside n' inside' same
    have sizes := congrArg List.length (List.append_cancel_left same)
    rw [List.mem_range] at inside inside'
    simp only [List.length_take] at sizes
    omega
  have fits := (List.subperm_of_subset distinct known).length_le
  rwa [List.length_map, List.length_range, Dict.keys, List.length_map] at fits

end Listed

/-! ### The walk -/

theorem mem_childrenOf {t : FileTree} {place : List String} {name : String} {e : Entry} :
    (name, e) ∈ t.childrenOf place ↔ t.at? (place ++ [name]) = some e := by
  rw [at?, if_neg (by simp), Dict.get?_eq_some_iff, childrenOf, List.mem_filterMap]
  constructor
  · rintro ⟨⟨key, e'⟩, member, picked⟩
    dsimp only at picked
    split at picked
    · rename_i name' below
      obtain ⟨rfl, rfl⟩ := Prod.mk.inj (Option.some.inj picked)
      rwa [← Resolve.dropComponents_eq_some_iff.1 below]
    · cases picked
  · intro member
    refine ⟨_, member, ?_⟩
    have below : Path.dropComponents place (place ++ [name]) = some [name] :=
      Resolve.dropComponents_eq_some_iff.2 rfl
    simp only [below]

/-- The names below a directory that lead to files, so far as they start with one child of it. -/
def namesIn (skip : List String) (p : Path) (inner : String → List (List String)) :
    String × Entry → List (List String)
  | (name, .file _) => if Path.isGoFile (p.join name) then [[name]] else []
  | (name, .dir) => if isPruned skip name then [] else (inner name).map (name :: ·)

/-- The walk as a list of the names that lead to the files. -/
def namesFrom (t : FileTree) (skip : List String) :
    (depth : Nat) → (place : List String) → Path → List (List String)
  | 0, _, _ => []
  | depth + 1, place, p =>
    (t.childrenOf place).flatMap <|
      namesIn skip p fun name => t.namesFrom skip depth (place ++ [name]) (p.join name)

theorem walkFrom_eq_map (t : FileTree) (skip : List String) (depth : Nat) (place : List String)
    (p : Path) : t.walkFrom skip depth place p = (t.namesFrom skip depth place p).map p.under := by
  induction depth generalizing place p with
  | zero => rfl
  | succ depth ih =>
    rw [walkFrom, namesFrom, List.map_flatMap]
    congr 1
    funext ⟨name, e⟩
    cases e with
    | file content => cases source : (p.join name).isGoFile <;> simp [namesIn, source]
    | dir =>
      cases pruned : isPruned skip name with
      | true => simp [namesIn, pruned]
      | false => simp [namesIn, pruned, ih, Function.comp_def]

section Child

variable {skip : List String} {p : Path} {inner : String → List (List String)} {name : String}

theorem mem_namesIn {e : Entry} {names : List String} :
    names ∈ namesIn skip p inner (name, e) ↔
      (∃ content, e = .file content) ∧ (p.join name).isGoFile = true ∧ names = [name] ∨
        e = .dir ∧ isPruned skip name = false ∧ ∃ rest ∈ inner name, names = name :: rest := by
  cases e with
  | file content => simp [namesIn]
  | dir =>
    cases pruned : isPruned skip name with
    | true => simp [namesIn, pruned]
    | false => simp [namesIn, pruned, List.mem_map, eq_comm (a := name :: _)]

/-- What a child contributes starts with its name. -/
theorem exists_cons_of_mem_namesIn {e : Entry} {names : List String}
    (member : names ∈ namesIn skip p inner (name, e)) : ∃ rest, names = name :: rest := by
  rcases mem_namesIn.1 member with ⟨-, -, rfl⟩ | ⟨-, -, rest, -, rfl⟩
  · exact ⟨[], rfl⟩
  · exact ⟨rest, rfl⟩

end Child

/-- A walk lists what it is to list, as far down as it goes. -/
theorem mem_namesFrom {t : FileTree} {skip : List String} {depth : Nat} {place : List String}
    {p : Path} (dir : t.at? place = some .dir) {names : List String} :
    names ∈ t.namesFrom skip depth place p ↔
      t.Listed skip place p names ∧ names.length ≤ depth := by
  induction depth generalizing place p names with
  | zero =>
    constructor
    · intro member
      cases member
    · rintro ⟨listed, short⟩
      exact absurd (List.length_eq_zero_iff.1 (Nat.le_zero.1 short)) (listed.ne_nil dir)
  | succ depth ih =>
    rw [namesFrom, List.mem_flatMap]
    constructor
    · rintro ⟨⟨name, e⟩, child, member⟩
      rw [mem_childrenOf] at child
      rcases mem_namesIn.1 member with
        ⟨⟨content, rfl⟩, source, rfl⟩ | ⟨rfl, kept, rest, inside, rfl⟩
      · exact ⟨(listed_singleton dir).2 ⟨⟨content, child⟩, source⟩, by simp⟩
      · obtain ⟨listed, short⟩ := (ih child).1 inside
        have whole := (listed_cons dir (listed.ne_nil child)).2 ⟨child, kept, listed⟩
        exact ⟨whole, Nat.succ_le_succ short⟩
    · rintro ⟨listed, short⟩
      obtain ⟨name, rest, rfl⟩ := List.exists_cons_of_ne_nil (listed.ne_nil dir)
      by_cases last : rest = []
      · subst last
        obtain ⟨⟨content, file⟩, source⟩ := (listed_singleton dir).1 listed
        refine ⟨(name, .file content), mem_childrenOf.2 file, ?_⟩
        exact mem_namesIn.2 (.inl ⟨⟨content, rfl⟩, source, rfl⟩)
      · obtain ⟨next, kept, listed⟩ := (listed_cons dir last).1 listed
        have member := (ih next).2 ⟨listed, Nat.le_of_succ_le_succ short⟩
        refine ⟨(name, .dir), mem_childrenOf.2 next, ?_⟩
        exact mem_namesIn.2 (.inr ⟨rfl, kept, rest, member, rfl⟩)

/-- One list of names stands before another, name by name and each name byte by byte. -/
def Before (names names' : List String) : Prop :=
  names.map Utf8.ofString < names'.map Utf8.ofString

instance (names names' : List String) : Decidable (Before names names') :=
  inferInstanceAs (Decidable (_ < _))

theorem before_of_lt {name name' : String} (less : name < name') (names names' : List String) :
    Before (name :: names) (name' :: names') :=
  List.Lex.rel (Utf8.encode_lt_encode (String.lt_iff.1 less))

theorem Before.cons (name : String) {names names' : List String} (less : Before names names') :
    Before (name :: names) (name :: names') :=
  List.Lex.cons less

theorem namesIn_sorted {skip : List String} {p : Path} {inner : String → List (List String)}
    {name : String} {e : Entry} (sorted : (inner name).Pairwise Before) :
    (namesIn skip p inner (name, e)).Pairwise Before := by
  cases e with
  | file content =>
    rw [namesIn]
    split
    · exact List.pairwise_singleton ..
    · exact .nil
  | dir =>
    rw [namesIn]
    split
    · exact .nil
    · rw [List.pairwise_map]
      exact sorted.imp (Before.cons name)

/-- A walk goes through the names in order: within a child by what follows its name, and from one
child to the next by their names. -/
theorem namesFrom_sorted (t : FileTree) (skip : List String) (depth : Nat) (place : List String)
    (p : Path) : (t.namesFrom skip depth place p).Pairwise Before := by
  induction depth generalizing place p with
  | zero => exact .nil
  | succ depth ih =>
    rw [namesFrom, List.pairwise_flatMap]
    constructor
    · rintro ⟨name, e⟩ -
      apply namesIn_sorted
      exact ih (place ++ [name]) (p.join name)
    · refine (t.childrenOf_sorted place).imp ?_
      rintro ⟨name, e⟩ ⟨name', e'⟩ less names member names' member'
      obtain ⟨rest, rfl⟩ := exists_cons_of_mem_namesIn member
      obtain ⟨rest', rfl⟩ := exists_cons_of_mem_namesIn member'
      exact before_of_lt less rest rest'

/-! ### From a directory all the way down -/

/-- The names that lead from a directory to the source files that a walk from there lists. -/
def namesBelow (t : FileTree) (skip place : List String) (p : Path) : List (List String) :=
  t.namesFrom (skippedDirs ++ skip) (t.entries.size + 1) place p

section Whole

variable {t : FileTree} {skip place : List String} {p : Path}

theorem walk_eq_ok (located : t.locate p = .ok place) (dir : t.at? place = some .dir) :
    t.walk skip p = .ok ((t.namesBelow skip place p).map p.under) := by
  rw [walk, located]
  simp only [dir]
  rw [walkFrom_eq_map, namesBelow]

/-- A walk goes deep enough to list all that it is to list. -/
theorem mem_namesBelow (dir : t.at? place = some .dir) {names : List String} :
    names ∈ t.namesBelow skip place p ↔ t.Listed (skippedDirs ++ skip) place p names := by
  rw [namesBelow, mem_namesFrom dir]
  constructor
  · exact And.left
  · intro listed
    exact ⟨listed, Nat.le_succ_of_le listed.length_le⟩

theorem namesBelow_sorted : (t.namesBelow skip place p).Pairwise Before :=
  namesFrom_sorted ..

theorem isName_of_mem_namesBelow (named : t.Named) (dir : t.at? place = some .dir)
    {names : List String} (member : names ∈ t.namesBelow skip place p) :
    ∀ name ∈ names, Path.IsName name := by
  obtain ⟨content, file⟩ := ((mem_namesBelow dir).1 member).file
  intro name among
  exact named.of_at? file name (List.mem_append_right _ among)

/-- The files that a walk lists have different full paths. -/
theorem namesBelow_apart (named : t.Named) (dir : t.at? place = some .dir) (nonempty : p ≠ "") :
    (t.namesBelow skip place p).Pairwise fun names names' =>
      (t.absolute (p.under names)).components ≠ (t.absolute (p.under names')).components := by
  refine namesBelow_sorted.imp_of_mem fun member member' less same => ?_
  rw [t.components_absolute_under nonempty (isName_of_mem_namesBelow named dir member),
    t.components_absolute_under nonempty (isName_of_mem_namesBelow named dir member')] at same
  rw [List.append_cancel_left same] at less
  exact List.lt_irrefl _ less

end Whole

end FileTree

end Marginalia
