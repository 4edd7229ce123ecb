/-
Module: Marginalia.Proofs.FileTree.Place
Purpose: Where paths lead: the place of a path, what it names, and what is read after a write.
Main exports:
  FileTree.place?, FileTree.lookup_eq_ok_iff, FileTree.read_eq_ok_iff_place?,
  FileTree.components_absolute, FileTree.follow_congr, FileTree.target_eq_ok,
  FileTree.write_eq_ok, FileTree.read_of_write, FileTree.write_same
-/
import Marginalia.Proofs.FileTree
import Marginalia.Proofs.Path

namespace Marginalia.FileTree

/-! ### Places -/

/-- The place that a path leads to through directories. -/
def place? (t : FileTree) (p : Path) : Option (List String) :=
  if p.isEmpty then none else (t.follow [] (t.absolute p).components).toOption

/-- What a path names, by its place. A file is not named by a path that is written as that of a
directory. -/
theorem lookup_eq_ok_iff {t : FileTree} {p : Path} {e : Entry} :
    t.lookup p = .ok e ↔ ∃ place, t.place? p = some place ∧ t.at? place = some e ∧
      (e ≠ .dir → namesDirectory p = false) := by
  unfold lookup locate place?
  cases p.isEmpty with
  | true => simp
  | false =>
    simp only [Bool.false_eq_true, if_false]
    cases t.follow [] (t.absolute p).components with
    | error cause => simp [Except.toOption]
    | ok place =>
      simp only [Except.toOption, Option.some.injEq, exists_eq_left']
      cases found : t.at? place with
      | none => simp [found]
      | some entry =>
        cases entry with
        | dir =>
          simp only [found, Except.ok.injEq, Option.some.injEq]
          constructor
          · rintro rfl
            exact ⟨rfl, fun differ => absurd rfl differ⟩
          · exact And.left
        | file content =>
          cases namesDirectory p with
          | true =>
            simp only [if_true, reduceCtorEq, Option.some.injEq, false_iff, not_and]
            rintro rfl
            simp
          | false => simp [found]

theorem isDir_iff {t : FileTree} {p : Path} : t.isDir p = true ↔
    ∃ place, t.place? p = some place ∧ t.at? place = some .dir := by
  have named : t.isDir p = true ↔ t.lookup p = .ok .dir := by
    unfold isDir
    split <;> simp_all
  rw [named, lookup_eq_ok_iff]
  simp

theorem read_eq_ok_iff_place? {t : FileTree} {p : Path} {content : Bytes} :
    t.read p = .ok content ↔ ∃ place, t.place? p = some place ∧
      t.at? place = some (.file content) ∧ namesDirectory p = false := by
  have named : t.read p = .ok content ↔ t.lookup p = .ok (.file content) := by
    unfold read
    split <;> simp_all
  rw [named, lookup_eq_ok_iff]
  simp

theorem isFile_eq (t : FileTree) (p : Path) : t.isFile p = (t.read p).toOption.isSome := by
  unfold isFile read
  cases t.lookup p with
  | error e => rfl
  | ok entry => cases entry <;> rfl

theorem children_eq_ok_iff {t : FileTree} {p : Path} {entries : List (String × Entry)} :
    t.children p = .ok entries ↔ ∃ place, t.place? p = some place ∧ t.at? place = some .dir ∧
      t.childrenOf place = entries := by
  unfold children locate place?
  cases p.isEmpty with
  | true => simp
  | false =>
    simp only [Bool.false_eq_true, if_false]
    cases t.follow [] (t.absolute p).components with
    | error cause => simp [Except.toOption]
    | ok place =>
      simp only [Except.toOption, Option.some.injEq, exists_eq_left']
      cases found : t.at? place with
      | none => simp [found]
      | some entry =>
        cases entry with
        | dir => simp [found]
        | file content => cases namesDirectory p <;> simp [found]

/-! ### Spellings -/

theorem cwd_ne_empty {t : FileTree} (rooted : t.cwd.isAbsolute = true) : t.cwd ≠ "" := by
  intro empty
  rw [empty] at rooted
  cases rooted

theorem isAbsolute_absolute {t : FileTree} (rooted : t.cwd.isAbsolute = true) (p : Path) :
    (t.absolute p).isAbsolute = true := by
  unfold absolute
  split
  · assumption
  · rename_i relative
    rw [Path.isAbsolute_join (cwd_ne_empty rooted) (by simpa using relative), rooted]

theorem absolute_of_isAbsolute {t : FileTree} {p : Path} (rooted : p.isAbsolute = true) :
    t.absolute p = p := by
  rw [absolute, if_pos rooted]

theorem components_absolute {t : FileTree} (rooted : t.cwd.isAbsolute = true) (p : Path) :
    (t.absolute p).components = if p.isAbsolute then p.components
      else t.cwd.components ++ Path.solid p.components := by
  unfold absolute
  split
  · rfl
  · rename_i relative
    rw [Bool.not_eq_true] at relative
    rw [Path.components_join (cwd_ne_empty rooted) relative, Path.solid_pieces_of_relative relative]

theorem absolute_congr {t : FileTree} (rooted : t.cwd.isAbsolute = true) {p q : Path}
    (same : p.components = q.components) :
    (t.absolute p).components = (t.absolute q).components := by
  rw [components_absolute rooted, components_absolute rooted, same, Path.isAbsolute_congr same]

/-! ### Following components -/

theorem follow_of_not_dir {t : FileTree} {place : List String} (other : t.at? place ≠ some .dir)
    (name : String) (names : List String) : (t.follow place (name :: names)).toOption = none := by
  rw [follow]
  cases found : t.at? place with
  | none => rfl
  | some entry =>
    cases entry with
    | file content => rfl
    | dir => exact absurd found other

theorem follow_append (t : FileTree) (place front back : List String) :
    t.follow place (front ++ back) =
      match t.follow place front with
      | .ok reached => t.follow reached back
      | .error e => .error e := by
  induction front generalizing place with
  | nil => rfl
  | cons name front ih =>
    rw [List.cons_append, follow, follow]
    split
    · rfl
    · rfl
    · split
      · exact ih _
      · split
        · exact ih _
        · split <;> exact ih _

/-- A plain name is the last of the place that it leads to. -/
theorem getLast?_of_follow {t : FileTree} {front place : List String} {name : String}
    (plain : name ≠ "/" ∧ name ≠ "." ∧ name ≠ "..")
    (led : t.follow [] (front ++ [name]) = .ok place) : place.getLast? = some name := by
  rw [follow_append] at led
  split at led
  · rename_i reached _
    rw [follow] at led
    split at led
    · cases led
    · cases led
    · simp only [beq_iff_eq, plain.1, plain.2.1, plain.2.2, if_false] at led
      rw [follow] at led
      rw [← Except.ok.inj led]
      simp
  · cases led

/-- Only directories matter on the way. -/
theorem follow_congr {t t' : FileTree}
    (dirs : ∀ place, t.at? place = some .dir ↔ t'.at? place = some .dir)
    (place names : List String) :
    (t.follow place names).toOption = (t'.follow place names).toOption := by
  induction names generalizing place with
  | nil => rfl
  | cons name names ih =>
    by_cases dir : t.at? place = some .dir
    · rw [follow, follow, dir, (dirs place).1 dir]
      simp only
      split
      · exact ih _
      · split
        · exact ih _
        · split <;> exact ih _
    · exact (follow_of_not_dir dir name names).trans
        (follow_of_not_dir (mt (dirs place).2 dir) name names).symm

/-! ### Writing -/

theorem place?_eq_some_iff {t : FileTree} {p : Path} {place : List String} :
    t.place? p = some place ↔
      p.isEmpty = false ∧ t.follow [] (t.absolute p).components = .ok place := by
  unfold place?
  cases p.isEmpty with
  | true => simp
  | false => cases t.follow [] (t.absolute p).components <;> simp [Except.toOption]

/-- A path lets a file be written in the place that it leads to, where no directory is, if it is not
written as that of a directory. -/
theorem target_eq_ok {t : FileTree} {p : Path} {place : List String}
    (led : t.target p = .ok place) :
    t.place? p = some place ∧ t.at? place ≠ some .dir ∧ namesDirectory p = false := by
  unfold target at led
  rw [place?_eq_some_iff]
  split at led
  · cases led
  · rename_i filled
    split at led
    · cases led
    · rename_i reached followed
      split at led
      · cases led
      · split at led
        · cases led
        · rename_i entry
          split at led
          · cases led
          · rename_i plain
            obtain rfl := Except.ok.inj led
            exact ⟨⟨by simpa using filled, followed⟩, by simp [entry], by simpa using plain⟩
        · rename_i absent
          split at led
          · cases led
          · rename_i plain
            split at led
            · obtain rfl := Except.ok.inj led
              exact ⟨⟨by simpa using filled, followed⟩, by simp [absent], by simpa using plain⟩
            · cases led
            · cases led

/-- A file is written in the place that its path leads to, where no directory is. -/
theorem write_eq_ok {t t' : FileTree} {p : Path} {content : Bytes}
    (written : t.write p content = .ok t') :
    ∃ place, t.place? p = some place ∧ place ≠ [] ∧ t.at? place ≠ some .dir ∧
      t' = t.put place (.file content) := by
  unfold write at written
  split at written
  · cases written
  · rename_i place led
    obtain ⟨reached, other, -⟩ := target_eq_ok led
    refine ⟨place, reached, ?_, other, (Except.ok.inj written).symm⟩
    rintro rfl
    exact other rfl

/-- A file that stands in the place of no directory leaves the directories as they are. -/
theorem dir_iff_put {t : FileTree} {place : List String} (below : place ≠ [])
    (other : t.at? place ≠ some .dir) (content : Bytes) (place' : List String) :
    t.at? place' = some .dir ↔
      FileTree.at? (t.put place (.file content)) place' = some .dir := by
  rw [at?_put t below]
  split
  · rename_i same
    simp [same, other]
  · rfl

/-- Paths lead where they led before a file was written where no directory was. -/
theorem place?_put {t : FileTree} {place : List String} (below : place ≠ [])
    (other : t.at? place ≠ some .dir) (content : Bytes) (q : Path) :
    (t.put place (.file content)).place? q = t.place? q := by
  unfold place?
  rw [← follow_congr fun place' => dir_iff_put below other content place']
  rfl

/-- What is written is read back. -/
theorem read_of_write {t t' : FileTree} {p : Path} {content : Bytes}
    (written : t.write p content = .ok t') : t'.read p = .ok content := by
  obtain ⟨place, led, below, other, rfl⟩ := write_eq_ok written
  have plain : namesDirectory p = false := by
    unfold write at written
    split at written
    · cases written
    · rename_i target
      exact (target_eq_ok target).2.2
  refine read_eq_ok_iff_place?.2 ⟨place, (place?_put below other content p).trans led, ?_, plain⟩
  rw [at?_put t below, if_pos rfl]

/-- Where a file can be written there is one to read, or none. -/
theorem read_of_target {t : FileTree} {p : Path} {place : List String}
    (led : t.target p = .ok place) :
    (∃ content, t.read p = .ok content) ∨ t.read p = .error .notFound := by
  obtain ⟨reached, other, plain⟩ := target_eq_ok led
  cases found : t.at? place with
  | none =>
    right
    obtain ⟨filled, followed⟩ := place?_eq_some_iff.1 reached
    simp [read, lookup, locate, filled, followed, found]
  | some entry =>
    cases entry with
    | dir => exact absurd found other
    | file content => exact .inl ⟨content, read_eq_ok_iff_place?.2 ⟨place, reached, found, plain⟩⟩

/-- To write to a file what it holds changes nothing. -/
theorem write_same {t : FileTree} {p : Path} {content : Bytes} (readable : t.read p = .ok content) :
    t.write p content = .ok t := by
  obtain ⟨place, located, file⟩ := read_eq_ok_iff.1 readable
  rw [write_of_locate located file, put_of_at? (ne_nil_of_file file) file]

/-- A file that can be read can be written. -/
theorem read_of_write_eq_error {t : FileTree} {p : Path} {content : Bytes} {e : IoError}
    (failed : t.write p content = .error e) (old : Bytes) : t.read p ≠ .ok old := by
  intro readable
  obtain ⟨t', written, -⟩ := write_of_read readable content
  rw [failed] at written
  cases written

end Marginalia.FileTree
