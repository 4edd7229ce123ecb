/-
Module: Marginalia.Proofs.Workspace.DirectoryScan
Purpose: Files are asked for independently of each other, so that a scan of a directory puts
  together what is found in each file that the walk lists.
Main exports:
  heldDecls, outcome_fileDecls, SameFor, fileDecls_congr, yields_fileDecls_frame,
  filesDecls_eq_flatMap, Workspace.walk_lists
-/
import Marginalia.Proofs.Workspace.ContentCache
import Marginalia.Proofs.Workspace.Walk

namespace Marginalia

open Query

variable {w : World} {p : Path} {marker : String}

/-! ### One file -/

/-- The annotated declarations in a content, from what is kept for the file if it is kept. -/
def heldDecls (m : Memory) (p : Path) (marker : String) (content : Bytes) :
    Except Error (List AnnotatedDecl) :=
  match m.caches.decls.get? (Caches.declKey marker p) content with
  | some decls => .ok decls
  | none =>
    match m.caches.units.get? (Caches.unitKey p) content with
    | some unit => .ok (annotatedDecls unit marker)
    | none => (sourceUnit p content).map (annotatedDecls · marker)

/-- The answer about a file, from what is kept for it. -/
theorem outcome_fileDecls (m : Memory) :
    (outcome (fileDecls p marker) w m).1 =
      if (w.files.absolute p).isGoFile then
        match w.files.read (w.files.absolute p) with
        | .error e => .error (.io e)
        | .ok content =>
          if containsBytes (Utf8.ofString marker) content then
            heldDecls m (w.files.absolute p) marker content
          else .ok []
      else .ok [] := by
  unfold fileDecls
  rw [outcome_bind, outcome_read]
  dsimp only
  cases (w.files.absolute p).isGoFile with
  | false => rfl
  | true =>
    simp only [Bool.not_true, Bool.false_eq_true, if_false, if_true]
    rw [outcome_bind, outcome_readFile]
    dsimp only
    cases w.files.read (w.files.absolute p) with
    | error e => rfl
    | ok content =>
      dsimp only
      cases containsBytes (Utf8.ofString marker) content with
      | false => rfl
      | true =>
        simp only [Bool.not_true, Bool.false_eq_true, if_false, if_true]
        rw [outcome_bind, outcome_get, heldDecls]
        dsimp only
        cases held : m.caches.decls.get? (Caches.declKey marker (w.files.absolute p)) content with
        | some decls => rfl
        | none =>
          dsimp only
          rw [outcome_bind, outcome_parseBytes]
          dsimp only
          rw [VersionStore.answer_load]
          -- nothing is kept yet, so that what is found is what the cache answers
          have last (unit : Go.SourceUnit) :
              (m.caches.decls.load (Caches.declKey marker (w.files.absolute p)) content
                fun _ => (.ok (annotatedDecls unit marker) : Except Error _)).1.answer =
                .ok (annotatedDecls unit marker) := by
            rw [VersionStore.answer_load, held]
          cases m.caches.units.get? (Caches.unitKey (w.files.absolute p)) content with
          | some unit => exact last unit
          | none =>
            cases sourceUnit (w.files.absolute p) content with
            | error e => rfl
            | ok unit => exact last unit

/-- Two memories keep the same for a file and a marker. -/
def SameFor (key : List String) (marker : String) (m m' : Memory) : Prop :=
  ∀ content, m.caches.units.get? key content = m'.caches.units.get? key content ∧
    m.caches.decls.get? (marker :: key) content = m'.caches.decls.get? (marker :: key) content

/-- The answer about a file depends on what is kept for it alone. -/
theorem fileDecls_congr {m m' : Memory}
    (same : SameFor (w.files.absolute p).components marker m m') :
    (outcome (fileDecls p marker) w m).1 = (outcome (fileDecls p marker) w m').1 := by
  have held (content : Bytes) : heldDecls m (w.files.absolute p) marker content =
      heldDecls m' (w.files.absolute p) marker content := by
    obtain ⟨units, decls⟩ := same content
    rw [heldDecls, heldDecls, Caches.declKey, Caches.unitKey, units, decls]
  rw [outcome_fileDecls, outcome_fileDecls]
  simp only [held]

theorem yields_parseBytes_frame {m : Memory} {key : List String} (differ : key ≠ p.components)
    (content : Bytes) :
    Yields w (SameFor key marker m) (parseBytes p content) fun _ => True := by
  intro m' kept
  rw [outcome_parseBytes]
  refine ⟨trivial, fun content' => ⟨?_, (kept content').2⟩⟩
  exact (kept content').1.trans (VersionStore.get?_load _ differ _ _ _).symm

/-- To ask about a file leaves what is kept for the others. -/
theorem yields_fileDecls_frame {m : Memory} {key : List String}
    (differ : key ≠ (w.files.absolute p).components) :
    Yields w (SameFor key marker m) (fileDecls p marker) fun _ => True := by
  unfold fileDecls
  refine yields_read.bind ?_
  rintro _ rfl
  dsimp only
  split
  · exact yields_pure trivial
  · refine (yields_readFile _).bind ?_
    rintro _ rfl
    cases w.files.read (w.files.absolute p) with
    | error e => exact yields_pure trivial
    | ok content =>
      dsimp only
      split
      · exact yields_pure trivial
      · refine yields_get.bind fun m' _ => ?_
        split
        · exact yields_pure trivial
        · refine (yields_parseBytes_frame differ content).bind fun answer _ => ?_
          cases answer with
          | error e => exact yields_pure trivial
          | ok unit =>
            intro m' kept
            rw [outcome_bind, outcome_get]
            refine ⟨trivial, fun content' => ⟨(kept content').1, ?_⟩⟩
            have apart : marker :: key ≠ Caches.declKey marker (w.files.absolute p) :=
              fun same => differ (List.cons.inj same).2
            exact (kept content').2.trans (VersionStore.get?_load _ apart _ _ _).symm

/-! ### Many files -/

/-- Asked one after the other, files with different full paths answer as each does alone. -/
theorem filesDecls_eq_flatMap {α : Type} {path : α → Path} {items : List α}
    {decls : α → List AnnotatedDecl} {m : Memory}
    (distinct : items.Pairwise fun a b =>
      (w.files.absolute (path a)).components ≠ (w.files.absolute (path b)).components)
    (each : ∀ a ∈ items, (outcome (fileDecls (path a) marker) w m).1 = .ok (decls a)) :
    (outcome (filesDecls marker (items.map path)) w m).1 = .ok (items.flatMap decls) := by
  induction items generalizing m with
  | nil => rfl
  | cons a items ih =>
    obtain ⟨first, later⟩ := List.forall_mem_cons.1 each
    obtain ⟨apart, distinct⟩ := List.pairwise_cons.1 distinct
    have still : ∀ b ∈ items, (outcome (fileDecls (path b) marker) w
        (outcome (fileDecls (path a) marker) w m).2).1 = .ok (decls b) := by
      intro b member
      rw [← later b member, eq_comm]
      apply fileDecls_congr
      exact (yields_fileDecls_frame (apart b member).symm m fun _ => ⟨rfl, rfl⟩).2
    rw [List.map_cons, filesDecls, outcome_bind, first]
    dsimp only
    rw [outcome_bind, ih distinct still]
    rfl

/-- A scan of a directory asks for the files that the walk lists. -/
theorem outcome_scan {skip : List String} {paths : List Path} {m : Memory}
    (dir : w.files.lookup p = .ok .dir) (walked : w.files.walk skip p = .ok paths) :
    outcome (scan skip p marker) w m = outcome (filesDecls marker paths) w m := by
  rw [scan, outcome_bind, outcome_read]
  dsimp only
  rw [dir, walked]

namespace Workspace

open FileTree (Before Listed)

/-- A walk from a directory lists exactly once each source file below it that is not in a directory
to be passed over, in the order of the names that lead to them; and a scan of the directory finds
what each of these files is found to declare, in that order, whatever is remembered from before. -/
theorem walk_lists (w : Workspace) (named : w.files.Named) {p : Path} {place : List String}
    (located : w.files.locate p = .ok place) (dir : w.files.at? place = some .dir)
    (skip : List String) :
    ∃ found : List (List String),
      w.files.walk skip p = .ok (found.map p.under) ∧ found.Pairwise Before ∧
      (∀ names, names ∈ found ↔ Listed w.files (skippedDirs ++ skip) place p names) ∧
      (∀ names ∈ found, (p.under names).below? p = some names) ∧
      ∀ (marker : String) (decls : List String → List AnnotatedDecl),
        (∀ names ∈ found, (w.ask (fileDecls (p.under names) marker)).1 = .ok (decls names)) →
          (w.ask (Marginalia.scan skip p marker)).1 = .ok (found.flatMap decls) := by
  have nonempty : p ≠ "" := by
    rintro rfl
    cases located
  have looked : w.files.lookup p = .ok .dir := by
    simp only [FileTree.lookup, located, dir]
  let found := w.files.namesBelow skip place p
  have walked : w.files.walk skip p = .ok (found.map p.under) := FileTree.walk_eq_ok located dir
  refine ⟨found, walked, FileTree.namesBelow_sorted, ?_, ?_, ?_⟩
  · intro names
    exact FileTree.mem_namesBelow dir
  · intro names member
    exact Path.below?_under nonempty (FileTree.isName_of_mem_namesBelow named dir member)
  · intro marker decls each
    change (outcome (Marginalia.scan skip p marker) w.world w.memory).1 = _
    rw [outcome_scan looked walked]
    apply filesDecls_eq_flatMap
    · exact FileTree.namesBelow_apart named dir nonempty
    · exact each

/-- A directory that is itself hidden, in which a directory stands before a file whose name starts
with its own, with directories to be passed over at both levels. -/
theorem walk_lists_interleaved :
    let source := Utf8.ofString "package a\n\n// +gen:api\ntype T int\n"
    let files : FileTree := ⟨"/home", .ofList [
      (["home"], .dir), (["home", ".git"], .dir), (["home", ".git", "a"], .dir),
      (["home", ".git", "a", "z.go"], .file source), (["home", ".git", "a", "deep"], .dir),
      (["home", ".git", "a", "deep", "y.go"], .file source), (["home", ".git", "a.go"], .file []),
      (["home", ".git", "a", "testdata"], .dir),
      (["home", ".git", "a", "testdata", "x.go"], .file source),
      (["home", ".git", ".idea"], .dir), (["home", ".git", ".idea", "x.go"], .file source),
      (["home", ".git", "gen"], .dir), (["home", ".git", "gen", "x.go"], .file source),
      (["home", ".git", "gen.go"], .file source), (["home", ".git", "x.txt"], .file source)]⟩
    let w : Workspace := { world := ⟨files, .offline⟩ }
    w.files.Named ∧ w.files.locate ".git" = .ok ["home", ".git"] ∧
      w.files.at? ["home", ".git"] = some .dir ∧
      w.files.walk ["gen"] ".git" =
        .ok [".git/a/deep/y.go", ".git/a/z.go", ".git/a.go", ".git/gen.go"] ∧
      ∃ found : List (List String),
        w.files.walk ["gen"] ".git" = .ok (found.map (Path.under ".git")) ∧
        found.Pairwise Before ∧
        (∀ names, names ∈ found ↔
          Listed w.files (skippedDirs ++ ["gen"]) ["home", ".git"] ".git" names) ∧
        (∀ names ∈ found, (Path.under ".git" names).below? ".git" = some names) ∧
        ∀ (marker : String) (decls : List String → List AnnotatedDecl),
          (∀ names ∈ found,
            (w.ask (fileDecls (Path.under ".git" names) marker)).1 = .ok (decls names)) →
          (w.ask (Marginalia.scan ["gen"] ".git" marker)).1 = .ok (found.flatMap decls) := by
  intro source files w
  have named : w.files.Named := by decide +kernel
  have located : w.files.locate ".git" = .ok ["home", ".git"] := by decide +kernel
  have dir : w.files.at? ["home", ".git"] = some .dir := by decide +kernel
  have walked : w.files.walk ["gen"] ".git" =
      .ok [".git/a/deep/y.go", ".git/a/z.go", ".git/a.go", ".git/gen.go"] := by decide +kernel
  exact ⟨named, located, dir, walked, walk_lists w named located dir ["gen"]⟩

end Workspace
end Marginalia
