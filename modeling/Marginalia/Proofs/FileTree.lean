/-
Module: Marginalia.Proofs.FileTree
Purpose: Writing over a file changes that file and nothing else.
Main exports:
  FileTree.read_eq_ok_iff, FileTree.write_of_locate, FileTree.write_of_read
-/
import Marginalia.FileTree
import Marginalia.Proofs.Dict
import Mathlib.Tactic

namespace Marginalia.FileTree

/-- A path reads as some content exactly when it leads to a file with that content. -/
theorem read_eq_ok_iff {t : FileTree} {p : Path} {content : Bytes} :
    t.read p = .ok content ↔
      ∃ place, t.locate p = .ok place ∧ t.at? place = some (.file content) := by
  unfold read lookup
  cases located : t.locate p with
  | error e => simp
  | ok place =>
    cases found : t.at? place with
    | none => simp [found]
    | some entry => cases entry <;> simp [found]

/-- What stands at the places of a tree after an entry was put below the root. -/
theorem at?_put (t : FileTree) {place : List String} (below : place ≠ []) (e : Entry)
    (other : List String) :
    FileTree.at? (t.put place e) other = if other = place then some e else t.at? other := by
  unfold at? put
  cases other with
  | nil => simp [below.symm]
  | cons name names => simp [Dict.get?_insert]

/-- Putting what stands at a place there again changes nothing. -/
theorem put_of_at? {t : FileTree} {place : List String} {e : Entry} (below : place ≠ [])
    (there : t.at? place = some e) : t.put place e = t := by
  rw [at?, if_neg (by simpa using below)] at there
  rw [put, Dict.insert_of_get? there]

/-- A place with a file in it is not the root. -/
theorem ne_nil_of_file {t : FileTree} {place : List String} {content : Bytes}
    (file : t.at? place = some (.file content)) : place ≠ [] := by
  rintro rfl
  simp [at?] at file

section Overwrite

variable {t : FileTree} {place : List String} {old : Bytes} (new : Bytes)
  (file : t.at? place = some (.file old))

include file

/-- After a file is written over, the same places are directories, files and empty. -/
theorem at?_overwrite (other : List String) :
    FileTree.at? (t.put place (.file new)) other =
      if other = place then some (.file new) else t.at? other :=
  at?_put t (ne_nil_of_file file) _ other

theorem follow_overwrite (start : List String) (names : List String) :
    (t.put place (.file new)).follow start names = t.follow start names := by
  induction names generalizing start with
  | nil => rfl
  | cons name names ih =>
    unfold follow
    rw [at?_overwrite new file]
    by_cases here : start = place
    · simp [here, file]
    · simp [here, ih]

/-- Paths lead where they led before a file was written over. -/
theorem locate_overwrite (q : Path) :
    (t.put place (.file new)).locate q = t.locate q := by
  have same : (t.put place (.file new)).absolute q = t.absolute q := rfl
  unfold locate
  rw [same, follow_overwrite new file]
  split
  · rfl
  · cases led : t.follow [] (t.absolute q).components with
    | error e => rfl
    | ok other =>
      simp only [at?_overwrite new file]
      by_cases here : other = place
      · simp [here, file]
      · simp [here]

theorem read_overwrite (q : Path) :
    (t.put place (.file new)).read q =
      if t.locate q = .ok place then .ok new else t.read q := by
  unfold read lookup
  rw [locate_overwrite new file]
  cases located : t.locate q with
  | error e => simp
  | ok other =>
    simp only [at?_overwrite new file, Except.ok.injEq]
    by_cases here : other = place
    · simp [here]
    · simp [here]

end Overwrite

/-- A file that a path leads to is written in its place. -/
theorem write_of_locate {t : FileTree} {p : Path} {place : List String} {old : Bytes}
    (located : t.locate p = .ok place) (file : t.at? place = some (.file old)) (new : Bytes) :
    t.write p new = .ok (t.put place (.file new)) := by
  have led : t.target p = .ok place := by
    unfold locate at located
    unfold target
    split at located
    · cases located
    · rename_i filled
      rw [if_neg filled]
      split at located
      · cases located
      · rename_i reached followed
        split at located
        · rename_i entry
          split at located
          · cases located
          · rename_i plain
            obtain rfl := Except.ok.inj located
            have slashless : p.pieces.getLast? ≠ some "" := by
              intro slash
              simp [namesDirectory, slash, Path.isVoid] at plain
            simp [slashless, file, plain]
        · rename_i other
          obtain rfl := Except.ok.inj located
          exact absurd file (other old)
  rw [write, led]

/-- A file that can be read can be written. All paths to it then read as the new content, and all
other paths read as before. -/
theorem write_of_read {t : FileTree} {p : Path} {old : Bytes} (readable : t.read p = .ok old)
    (new : Bytes) :
    ∃ t', t.write p new = .ok t' ∧
      ∀ q, t'.read q = if t.locate q = t.locate p then .ok new else t.read q := by
  obtain ⟨place, located, file⟩ := read_eq_ok_iff.1 readable
  refine ⟨t.put place (.file new), ?_, ?_⟩
  · exact write_of_locate located file new
  · intro q
    rw [located]
    exact read_overwrite new file q

/-! ### Relative paths start from one directory all along -/

theorem cwd_write {t t' : FileTree} {p : Path} {content : Bytes}
    (written : t.write p content = .ok t') : t'.cwd = t.cwd := by
  unfold write at written
  split at written
  · cases written
  · obtain rfl := Except.ok.inj written
    rfl

theorem cwd_makeFrom {t t' : FileTree} {place names : List String}
    (made : t.makeFrom place names = .ok t') : t'.cwd = t.cwd := by
  induction names generalizing t place with
  | nil =>
    obtain rfl := Except.ok.inj made
    rfl
  | cons name names ih =>
    unfold makeFrom at made
    split at made
    · exact ih made
    · split at made
      · exact ih made
      · split at made
        · exact ih made
        · dsimp only at made
          split at made
          · exact ih made
          · cases made
          · have kept := ih made
            exact kept

theorem cwd_remove (t : FileTree) (p : Path) : (t.remove p).cwd = t.cwd := by
  unfold remove
  split
  · rfl
  · rfl

end Marginalia.FileTree
