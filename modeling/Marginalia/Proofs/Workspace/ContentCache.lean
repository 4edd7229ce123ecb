/-
Module: Marginalia.Proofs.Workspace.ContentCache
Purpose: Source files and annotated declarations that are kept by content are never out of date.
Main exports:
  plainDecls, yields_fileDecls, Workspace.Event, Workspace.afterAll, Workspace.fileDecls_eq_forget
-/
import Marginalia.Proofs.FileTree
import Marginalia.Proofs.Workspace.Query
import Mathlib.Data.Set.Function

namespace Marginalia

open Query

/-! ### Annotated declarations -/

/-- Annotated declarations as they are found in a content, under one of some spellings of the path
of their file. -/
def DeclsFrom (spellings : Set Path) (key : List String) (content : Bytes)
    (decls : List AnnotatedDecl) : Prop :=
  ∃ q ∈ spellings, ∃ marker unit, Caches.declKey marker q = key ∧
    sourceUnit q content = .ok unit ∧ decls = annotatedDecls unit marker

/-- Everything that is kept by content was found in that content. -/
structure SoundContent (spellings : Set Path) (m : Memory) : Prop where
  units : m.caches.units.Holds (UnitFrom spellings)
  decls : m.caches.decls.Holds (DeclsFrom spellings)

theorem soundContent_of_empty (spellings : Set Path) {m : Memory} (new : m.caches = {}) :
    SoundContent spellings m := by
  constructor
  · rw [new]
    exact VersionStore.holds_empty _
  · rw [new]
    exact VersionStore.holds_empty _

theorem keepsUnits_soundContent (spellings : Set Path) :
    KeepsUnits spellings (SoundContent spellings) :=
  ⟨fun _ sound => sound.units, fun _ _ sound holds => ⟨holds, sound.decls⟩⟩

/-- The annotated declarations of a file, read anew. -/
def plainDecls (files : FileTree) (p : Path) (marker : String) :
    Except Error (List AnnotatedDecl) :=
  if !(files.absolute p).isGoFile then .ok []
  else
    match files.read (files.absolute p) with
    | .error e => .error (.io e)
    | .ok content =>
      if !containsBytes (Utf8.ofString marker) content then .ok []
      else (sourceUnit (files.absolute p) content).map (annotatedDecls · marker)

/-- With one spelling for every path, kept declarations are those that reading anew finds. -/
theorem DeclsFrom.eq_plain {spellings : Set Path} (single : spellings.InjOn Path.components)
    {p : Path} (spelled : p ∈ spellings) {marker : String} {content : Bytes}
    {decls : List AnnotatedDecl}
    (found : DeclsFrom spellings (Caches.declKey marker p) content decls) :
    .ok decls = (sourceUnit p content).map (annotatedDecls · marker) := by
  obtain ⟨q, member, marker', unit, key, read, rfl⟩ := found
  obtain ⟨rfl, same⟩ := List.cons.inj key
  obtain rfl := single member spelled same
  rw [read]
  rfl

/-- The last step: declarations that were found are kept and answered. -/
theorem yields_keepDecls {spellings : Set Path} (single : spellings.InjOn Path.components)
    {w : World} {p : Path} (spelled : p ∈ spellings) {content : Bytes} {unit : Go.SourceUnit}
    (read : sourceUnit p content = .ok unit) (marker : String) :
    Yields w (SoundContent spellings)
      (do
        let (loaded, decls) := (← get).caches.decls.load (Caches.declKey marker p) content
          fun _ => (.ok (annotatedDecls unit marker) : Except Error _)
        modify fun m => { m with caches := { m.caches with decls } }
        return loaded.answer)
      (· = .ok (annotatedDecls unit marker)) := by
  refine yields_get.bind fun m sound => ?_
  have computed : ∀ decls, (.ok (annotatedDecls unit marker) : Except Error _) = .ok decls →
      DeclsFrom spellings (Caches.declKey marker p) content decls := by
    rintro _ ⟨⟩
    exact ⟨p, spelled, marker, unit, rfl, read, rfl⟩
  obtain ⟨answer, holds⟩ := VersionStore.load_holds sound.decls
    (fun _ => (.ok (annotatedDecls unit marker) : Except Error _)) computed
  refine (yields_modify fun m sound => ⟨sound.units, holds⟩).bind fun _ _ => yields_pure ?_
  rcases answer with anew | ⟨decls, found, answer⟩
  · exact anew
  · refine answer.trans ?_
    rw [found.eq_plain single spelled, read]
    rfl

/-- With one spelling for every path, the cache answers as reading anew does. -/
theorem yields_fileDecls {spellings : Set Path} (single : spellings.InjOn Path.components)
    {w : World} {p : Path} (spelled : w.files.absolute p ∈ spellings) (marker : String) :
    Yields w (SoundContent spellings) (fileDecls p marker) (· = plainDecls w.files p marker) := by
  unfold fileDecls plainDecls
  refine yields_read.bind ?_
  rintro _ rfl
  dsimp only
  cases (w.files.absolute p).isGoFile with
  | false => exact yields_pure rfl
  | true =>
    simp only [Bool.not_true, Bool.false_eq_true, if_false]
    refine (yields_readFile _).bind ?_
    rintro _ rfl
    cases w.files.read (w.files.absolute p) with
    | error e => exact yields_pure rfl
    | ok content =>
      dsimp only
      cases containsBytes (Utf8.ofString marker) content with
      | false => exact yields_pure rfl
      | true =>
        simp only [Bool.not_true, Bool.false_eq_true, if_false]
        refine yields_get.bind fun m sound => ?_
        cases held : m.caches.decls.get? (Caches.declKey marker (w.files.absolute p)) content with
        | some hit =>
          refine yields_pure ?_
          exact (sound.decls _ _ _ held).eq_plain single spelled
        | none =>
          refine (yields_parseBytes (keepsUnits_soundContent spellings) spelled content).bind ?_
          rintro _ ⟨q, member, same, rfl⟩
          obtain rfl := single member spelled same
          cases read : sourceUnit (w.files.absolute p) content with
          | error e => exact yields_pure rfl
          | ok unit => exact yields_keepDecls single spelled read marker

/-! ### Histories -/

namespace Workspace

/-- What may happen to a workspace: its files change, or one of them is read. -/
inductive Event where
  | write (p : Path) (content : Bytes)
  | makeDirs (p : Path)
  | remove (p : Path)
  | parse (p : Path)
  | decls (p : Path) (marker : String)

/-- The path under which an event asks the caches. -/
def Event.spelling? (files : FileTree) : Event → Option Path
  | .parse p => some p
  | .decls p _ => some (files.absolute p)
  | _ => none

theorem Event.spelling?_congr {t t' : FileTree} (same : t.cwd = t'.cwd) (e : Event) :
    e.spelling? t = e.spelling? t' := by
  cases e with
  | decls p marker => simp [Event.spelling?, FileTree.absolute, same]
  | write p content => rfl
  | makeDirs p => rfl
  | remove p => rfl
  | parse p => rfl

/-- The paths under which events ask the caches. -/
def spellings (files : FileTree) (events : List Event) : Set Path :=
  { p | p ∈ events.filterMap (·.spelling? files) }

/-- The workspace after an event. A change of the files that fails changes nothing. -/
def after (w : Workspace) : Event → Workspace
  | .write p content => w.withFiles ((w.files.write p content).toOption.getD w.files)
  | .makeDirs p => w.withFiles ((w.files.makeDirs p).toOption.getD w.files)
  | .remove p => w.withFiles (w.files.remove p)
  | .parse p => (w.ask (parseFile p)).2
  | .decls p marker => (w.ask (fileDecls p marker)).2

/-- The workspace after events in turn. -/
def afterAll (w : Workspace) (events : List Event) : Workspace :=
  events.foldl after w

/-! ### Relative paths start from one directory all along -/

theorem cwd_after (w : Workspace) (e : Event) : (w.after e).files.cwd = w.files.cwd := by
  cases e with
  | write p content =>
    change ((w.files.write p content).toOption.getD w.files).cwd = _
    cases written : w.files.write p content with
    | error e => rfl
    | ok t => exact FileTree.cwd_write written
  | makeDirs p =>
    change ((w.files.makeDirs p).toOption.getD w.files).cwd = _
    cases made : w.files.makeDirs p with
    | error e => rfl
    | ok t => exact FileTree.cwd_makeFrom made
  | remove p => exact FileTree.cwd_remove w.files p
  | parse p => rfl
  | decls p marker => rfl

theorem cwd_afterAll (w : Workspace) (events : List Event) :
    (w.afterAll events).files.cwd = w.files.cwd := by
  induction events generalizing w with
  | nil => rfl
  | cons e events ih => exact (ih (w.after e)).trans (w.cwd_after e)

/-! ### Soundness along a history -/

/-- One event keeps the caches sound. -/
theorem sound_after {paths : Set Path} (single : paths.InjOn Path.components) {w : Workspace}
    (sound : SoundContent paths w.memory) {e : Event}
    (spelled : ∀ p, e.spelling? w.files = some p → p ∈ paths) :
    SoundContent paths (w.after e).memory := by
  cases e with
  | write p content => exact sound
  | makeDirs p => exact sound
  | remove p => exact sound
  | parse p =>
    have parsing : Yields w.world (SoundContent paths) (parseFile p) fun _ => True := by
      refine (yields_readFile p).bind fun answer _ => ?_
      cases answer with
      | error e => exact yields_pure trivial
      | ok content =>
        exact (yields_parseBytes (keepsUnits_soundContent paths) (spelled p rfl) content).mono
          fun _ _ => trivial
    exact (parsing w.memory sound).2
  | decls p marker =>
    exact (yields_fileDecls single (spelled _ rfl) marker w.memory sound).2

/-- All events of a history keep the caches sound. -/
theorem sound_afterAll {paths : Set Path} (single : paths.InjOn Path.components) {w : Workspace}
    (sound : SoundContent paths w.memory) {events : List Event}
    (spelled : spellings w.files events ⊆ paths) :
    SoundContent paths (w.afterAll events).memory := by
  induction events generalizing w with
  | nil => exact sound
  | cons e events ih =>
    have now : ∀ p, e.spelling? w.files = some p → p ∈ paths := by
      intro p asked
      exact spelled (List.mem_filterMap.2 ⟨e, List.mem_cons_self, asked⟩)
    have later : spellings (w.after e).files events ⊆ paths := by
      rintro p member
      obtain ⟨e', member, asked⟩ := List.mem_filterMap.1 member
      refine spelled (List.mem_filterMap.2 ⟨e', List.mem_cons_of_mem _ member, ?_⟩)
      rw [← asked]
      exact Event.spelling?_congr (w.cwd_after e).symm e'
    exact ih (sound_after single sound now) later

/-- The content caches are transparent: whatever was written, taken away, parsed and asked before, a
workspace answers as one with empty caches does, if the paths that were asked for are each spelled
in one way. -/
theorem fileDecls_eq_forget (w : Workspace) (new : w.memory.caches = {}) (events : List Event)
    (p : Path) (marker : String)
    (single : (spellings w.files (events ++ [.decls p marker])).InjOn Path.components) :
    ((w.afterAll events).ask (fileDecls p marker)).1 =
      ((w.afterAll events).forget.ask (fileDecls p marker)).1 := by
  have sound : SoundContent (spellings w.files (events ++ [.decls p marker]))
      (w.afterAll events).memory := by
    refine sound_afterAll single (soundContent_of_empty _ new) fun q member => ?_
    exact List.mem_filterMap.2 ((List.mem_filterMap.1 member).imp fun _ both =>
      ⟨List.mem_append_left _ both.1, both.2⟩)
  have spelled : (w.afterAll events).files.absolute p ∈
      spellings w.files (events ++ [.decls p marker]) := by
    refine List.mem_filterMap.2 ⟨.decls p marker, by simp, ?_⟩
    exact Event.spelling?_congr (w.cwd_afterAll events).symm (.decls p marker)
  have kept := (yields_fileDecls single spelled marker _ sound).1
  have anew := (yields_fileDecls single spelled marker {} (soundContent_of_empty _ rfl)).1
  exact kept.trans anew.symm

/-- A file that is written, asked for, broken, asked for under two markers, taken away and written
as before. -/
theorem fileDecls_eq_forget_rewritten :
    let w : Workspace := { world := ⟨.empty "/", .offline⟩ }
    let source := Utf8.ofString "package a\n\n// +gen:api\ntype T int\n"
    let events : List Event := [
      .write "/a.go" source, .decls "/a.go" "+gen:", .write "/a.go" (0xFF :: source),
      .parse "/a.go", .decls "a.go" "+gen:", .decls "/a.go" "package", .remove "/a.go",
      .decls "/a.go" "+gen:", .write "/a.go" source]
    w.memory.caches = {} ∧
      ((w.afterAll events).ask (fileDecls "/a.go" "package")).1 =
        ((w.afterAll events).forget.ask (fileDecls "/a.go" "package")).1 := by
  intro w source events
  have asked : (events ++ [Event.decls "/a.go" "package"]).filterMap (·.spelling? w.files) =
      List.replicate 6 "/a.go" := by
    decide +kernel
  have single : (spellings w.files (events ++ [.decls "/a.go" "package"])).Subsingleton := by
    intro p member q member'
    change p ∈ List.filterMap _ _ at member
    change q ∈ List.filterMap _ _ at member'
    rw [asked] at member member'
    rw [List.eq_of_mem_replicate member, List.eq_of_mem_replicate member']
  exact ⟨rfl, fileDecls_eq_forget w rfl events _ _ (single.injOn _)⟩

end Workspace
end Marginalia
