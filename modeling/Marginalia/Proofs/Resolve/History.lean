/-
Module: Marginalia.Proofs.Resolve.History
Purpose: The memory of the resolver and its cache file change no answer.
Main exports:
  Resolve.Question, Resolve.Answer.Agrees, Resolve.Event, Resolve.afterAll, Resolve.ClearImports,
  Resolve.answers_agree_forget
-/
import Marginalia.Proofs.Resolve.Memory

namespace Marginalia

open Query

namespace Resolve

open Go (Imports SourceUnit TypeExpr)

/-! ### Questions and answers -/

/-- A question to the resolver. -/
inductive Question where
  | modFile (dir : Path)
  | importPath (p : Path)
  | importName (p : Path)
  | packageDir (pkg : String) (dir : Path)
  | packageName (pkg : String) (dir : Path)
  | typeSpec (name : String) (dir : Path) (path : String)

/-- An answer of the resolver. -/
inductive Answer where
  | text (value : Option String)
  | type (found : Option (TypeExpr × SourceUnit))

/-- Answers are equal up to the spelling of the path of a source file. -/
inductive Answer.Agrees : Answer → Answer → Prop where
  | text (value : Option String) : Agrees (.text value) (.text value)
  | type {found found' : Option (TypeExpr × SourceUnit)} (same : SameFound found found') :
      Agrees (.type found) (.type found')

namespace Question

/-- How the resolver answers. -/
def query : Question → Query Answer
  | .modFile dir => .text <$> Resolve.modFile dir
  | .importPath p => .text <$> Resolve.importPath p
  | .importName p => .text <$> Resolve.importName p
  | .packageDir pkg dir => .text <$> packageImportDir pkg dir
  | .packageName pkg dir => .text <$> packageImportName pkg dir
  | .typeSpec name dir path => .type <$> lookupTypeSpec name dir path

/-- The answer without memory. -/
def plain (w : World) : Question → Answer
  | .modFile dir => .text (Plain.modFile w.files dir)
  | .importPath p => .text (Plain.importPath w.files p)
  | .importName p => .text (Plain.importName w.files p)
  | .packageDir pkg dir => .text (Plain.packageDir w pkg dir)
  | .packageName pkg dir => .text (Plain.packageName w pkg dir)
  | .typeSpec name dir path => .type (Plain.lookup w dir maxLookups name path)

/-- The import path that a question asks about, if it asks about one, has no `#` in it. -/
def Clear : Question → Prop
  | .packageDir pkg _ | .packageName pkg _ | .typeSpec _ _ pkg => '#' ∉ pkg.toList
  | _ => True

/-- With a memory in which every entry is right, a question is answered as without memory. -/
theorem yields_query {w : World} (rooted : w.files.cwd.isAbsolute = true)
    (lawful : w.toolchain.Lawful) (clearUnits : ClearUnits w.files) {q : Question}
    (clear : q.Clear) :
    Yields w (Sound w) q.query (Answer.Agrees (q.plain w)) := by
  have text {asked : Query (Option String)} {plain : Option String}
      (yields : Yields w (Sound w) asked (· = plain)) :
      Yields w (Sound w) (Answer.text <$> asked) (Answer.Agrees (.text plain)) := by
    intro m sound
    obtain ⟨answer, still⟩ := yields m sound
    refine ⟨?_, still⟩
    rw [← answer]
    exact .text _
  cases q with
  | modFile dir => exact text (yields_modFile (remembers_sound w) rooted dir)
  | importPath p => exact text (yields_importPath (remembers_sound w) rooted p)
  | importName p => exact text (yields_importName (remembers_sound w) rooted p)
  | packageDir pkg dir => exact text (yields_packageImportDir (remembers_sound w) rooted clear)
  | packageName pkg dir => exact text (yields_packageImportName (remembers_sound w) rooted clear)
  | typeSpec name dir path =>
    intro m sound
    obtain ⟨answer, still⟩ :=
      yields_lookupFrom rooted lawful clearUnits dir maxLookups name clear m sound
    exact ⟨.type answer, still⟩

theorem plain_congr {t t' : FileTree} (same : SameSources t t') (rooted : t.cwd.isAbsolute = true)
    (toolchain : Toolchain) (q : Question) : q.plain ⟨t, toolchain⟩ = q.plain ⟨t', toolchain⟩ := by
  cases q with
  | modFile dir => exact congrArg Answer.text (Plain.modFile_eq same rooted dir)
  | importPath p => exact congrArg Answer.text (Plain.importPath_eq same rooted p)
  | importName p => exact congrArg Answer.text (Plain.importName_eq same rooted p)
  | packageDir pkg dir =>
    exact congrArg Answer.text (Plain.packageDir_eq same rooted toolchain pkg dir)
  | packageName pkg dir =>
    exact congrArg Answer.text (Plain.packageName_eq same rooted toolchain pkg dir)
  | typeSpec name dir path =>
    exact congrArg Answer.type (Plain.lookup_eq same rooted toolchain dir maxLookups name path)

end Question

/-- Answers that agree with one answer agree with each other. -/
theorem Answer.Agrees.both {plain a b : Answer} (first : plain.Agrees a) (second : plain.Agrees b) :
    a.Agrees b := by
  cases first with
  | text value =>
    cases second with
    | text => exact .text value
  | type same =>
    cases second with
    | type same' =>
      refine .type ?_
      cases same with
      | none =>
        cases same'
        exact .none
      | some agree =>
        cases same' with
        | some agree' =>
          refine .some ⟨agree.1.symm.trans agree'.1, ?_, ?_⟩
          · exact agree.2.1.symm.trans agree'.2.1
          · rw [← agree.2.2, ← agree'.2.2]

/-! ### Histories -/

/-- The imports of a file, if it is a source file. They do not depend on its path. -/
def importsIn : Entry → Imports
  | .file content =>
    match sourceUnit "" content with
    | .ok unit => unit.imports
    | .error _ => []
  | .dir => []

/-- No file of a tree imports a path with a `#` in it. -/
def ClearImports (files : FileTree) : Prop :=
  ∀ e ∈ files.entries.entries, ∀ i ∈ importsIn e.2, '#' ∉ i.path.toList

instance (files : FileTree) : Decidable (ClearImports files) :=
  inferInstanceAs
    (Decidable (∀ e ∈ files.entries.entries, ∀ i ∈ importsIn e.2, '#' ∉ i.path.toList))

/-- What may happen to the resolver: it is asked a question, or its caches are written to a file
and taken from there again. -/
inductive Event where
  | ask (q : Question)
  | persist (file : Path)

/-- A question is about no import path with a `#` in it, and a cache file is no source. -/
def Event.Clear (files : FileTree) : Event → Prop
  | .ask q => q.Clear
  | .persist file => ∀ place, files.place? file = some place → isSource place = false

/-- The workspace after an event. What cannot be written or read leaves it as it is. -/
def after (w : Workspace) : Event → Workspace
  | .ask q => (w.ask q.query).2
  | .persist file =>
    let w := (w.flush file).toOption.getD w
    (w.reload file).toOption.getD w

/-- The workspace after events in turn. -/
def afterAll (w : Workspace) (events : List Event) : Workspace :=
  events.foldl after w

theorem clearUnits_of_clearImports {files : FileTree} (clear : ClearImports files) :
    ClearUnits files := by
  intro dir unit member i listed
  obtain ⟨p, -, found⟩ := List.mem_filterMap.1 member
  obtain ⟨content, read, parsed⟩ := Option.bind_eq_some_iff.1 found
  have read : files.read p = .ok content := by
    cases answer : files.read p <;> simp_all [Except.toOption]
  obtain ⟨place, -, file⟩ := FileTree.read_eq_ok_iff.1 read
  have stands : (place, Entry.file content) ∈ files.entries.entries := by
    rw [FileTree.at?, if_neg (by simpa using FileTree.ne_nil_of_file file)] at file
    exact Dict.get?_eq_some_iff.1 file
  refine clear _ stands i ?_
  have respelled := Plain.sourceUnit_respell p "" content
  rw [parsed] at respelled
  cases answer : sourceUnit "" content with
  | error e => simp [answer, Except.toOption] at respelled
  | ok unit' =>
    simp only [answer, Except.toOption, Option.map_some, Option.some.injEq] at respelled
    simpa [importsIn, answer, respelled] using listed

section SameTrees

variable {t t' : FileTree} (same : SameSources t t') (rooted : t.cwd.isAbsolute = true)
  (toolchain : Toolchain)

include same rooted

theorem meaning_congr (name : StoreName) (key value : String) :
    Meaning ⟨t, toolchain⟩ name key value ↔ Meaning ⟨t', toolchain⟩ name key value := by
  cases name with
  | modFile => simp only [Meaning, Plain.modFile_eq same rooted]
  | importPath => simp only [Meaning, Plain.importPathOf_eq same rooted]
  | importName => simp only [Meaning, Plain.importNameOf_eq same rooted]
  | packageDir => simp only [Meaning, Plain.packageDir_eq same rooted]
  | packageName => simp only [Meaning, Plain.packageName_eq same rooted]

theorem sound_congr (m : Memory) : Sound ⟨t, toolchain⟩ m ↔ Sound ⟨t', toolchain⟩ m := by
  have meanings := meaning_congr same rooted toolchain
  constructor
  · intro sound
    exact ⟨sound.units, fun name key value held => (meanings _ _ _).1 (sound.stores _ _ _ held)⟩
  · intro sound
    exact ⟨sound.units, fun name key value held => (meanings _ _ _).2 (sound.stores _ _ _ held)⟩

omit toolchain in
theorem clearUnits_congr (clear : ClearUnits t) : ClearUnits t' := by
  intro dir unit member
  rw [← Plain.units_eq same rooted] at member
  exact clear dir unit member

end SameTrees

/-! ### The cache file -/

theorem modules_ofSnapshot (s : Snapshot) :
    (Caches.ofSnapshot s).modules = (ModuleCache.restore s).1 := rfl

theorem units_ofSnapshot (s : Snapshot) : (Caches.ofSnapshot s).units = .empty := rfl

/-- Caches that come back from a snapshot of caches are as right as those were. -/
theorem sound_ofSnapshot {w : World} {m m' : Memory} (sound : Sound w m)
    (back : m'.caches = Caches.ofSnapshot m.caches.toSnapshot) : Sound w m' := by
  constructor
  · rw [back, units_ofSnapshot]
    exact VersionStore.holds_empty _
  · intro name key value held
    rw [back, modules_ofSnapshot, Caches.toSnapshot, ModuleCache.store_restore_capture,
      Dict.get?_filter, Option.filter_eq_some_iff] at held
    exact sound.stores name key value held.1

/-- What holds of the workspace all along: the world is the first one up to files that are no
sources, and every entry of the memory is right. -/
structure Settled (first : World) (w : Workspace) : Prop where
  toolchain : w.world.toolchain = first.toolchain
  sources : SameSources first.files w.files
  sound : Sound first w.memory

variable {first : World} {w : Workspace}

theorem Settled.ask (rooted : first.files.cwd.isAbsolute = true)
    (lawful : first.toolchain.Lawful) (clearUnits : ClearUnits first.files)
    (settled : Settled first w) {q : Question} (clear : q.Clear) :
    (q.plain first).Agrees (w.ask q.query).1 ∧ Settled first (w.ask q.query).2 := by
  obtain ⟨config, ⟨files, toolchain⟩, memory, edits⟩ := w
  obtain ⟨files₀, toolchain₀⟩ := first
  obtain ⟨rfl, sources, sound⟩ := settled
  have yields := Question.yields_query (w := ⟨files, toolchain⟩) (sources.cwd ▸ rooted) lawful
    (clearUnits_congr sources rooted clearUnits) clear memory
    ((sound_congr sources rooted toolchain memory).1 sound)
  refine ⟨?_, rfl, sources, (sound_congr sources rooted toolchain _).2 yields.2⟩
  rw [Question.plain_congr sources rooted toolchain]
  exact yields.1

/-- To take the caches from a file keeps them right, if the file holds what was written of them or
cannot be read. -/
theorem Settled.reload (settled : Settled first w) {file : Path}
    (written : ∀ bytes, w.files.read file = .ok bytes →
      bytes = w.memory.caches.toSnapshot.toBytes) :
    Settled first ((w.reload file).toOption.getD w) := by
  have taken {caches : Caches} (right : Sound first { w.memory with caches }) :
      Settled first { w with memory := { w.memory with caches }, edits := ∅ } :=
    ⟨settled.toolchain, settled.sources, right⟩
  unfold Workspace.reload Caches.load Snapshot.read
  cases read : w.files.read file with
  | ok bytes =>
    refine taken (sound_ofSnapshot settled.sound ?_)
    rw [written bytes read, Snapshot.ofBytes_toBytes]
  | error e =>
    cases e with
    | notFound => exact taken (sound_of_empty first rfl)
    | _ => exact settled

/-- To write the caches to a file that is no source and to take them from it again keeps them
right. -/
theorem Settled.persist (rooted : first.files.cwd.isAbsolute = true) (settled : Settled first w)
    {file : Path}
    (harmless : ∀ place, first.files.place? file = some place → isSource place = false) :
    Settled first (after w (.persist file)) := by
  unfold after
  dsimp only
  cases written : w.files.write file w.memory.caches.toSnapshot.toBytes with
  | error e =>
    have failed : (w.flush file).toOption.getD w = w := by
      simp [Workspace.flush, Caches.flush, Snapshot.write, written, Except.toOption]
    rw [failed]
    refine settled.reload fun bytes read => ?_
    exact absurd read (FileTree.read_of_write_eq_error written bytes)
  | ok files =>
    obtain ⟨place, led, below, other, made⟩ := FileTree.write_eq_ok written
    rw [← place?_congr settled.sources rooted rfl] at led
    have flushed : (w.flush file).toOption.getD w = w.withFiles files := by
      simp [Workspace.flush, Caches.flush, Snapshot.write, written, Except.toOption]
    have still : Settled first (w.withFiles files) := by
      refine ⟨settled.toolchain, settled.sources.trans ?_, settled.sound⟩
      rw [made]
      exact sameSources_put below other (harmless place led) _
    rw [flushed]
    refine still.reload fun bytes read => ?_
    exact Except.ok.inj (read.symm.trans (FileTree.read_of_write written))

/-- One event keeps the workspace settled. -/
theorem Settled.after (rooted : first.files.cwd.isAbsolute = true)
    (lawful : first.toolchain.Lawful) (clearUnits : ClearUnits first.files)
    (settled : Settled first w) {e : Event} (clear : e.Clear first.files) :
    Settled first (Resolve.after w e) := by
  cases e with
  | ask q => exact (settled.ask rooted lawful clearUnits clear).2
  | persist file => exact settled.persist rooted clear

/-- All events of a history keep the workspace settled. -/
theorem Settled.afterAll (rooted : first.files.cwd.isAbsolute = true)
    (lawful : first.toolchain.Lawful) (clearUnits : ClearUnits first.files)
    (settled : Settled first w) {events : List Event}
    (clear : ∀ e ∈ events, e.Clear first.files) : Settled first (Resolve.afterAll w events) := by
  induction events generalizing w with
  | nil => exact settled
  | cons e events ih =>
    obtain ⟨now, later⟩ := List.forall_mem_cons.1 clear
    exact ih (settled.after rooted lawful clearUnits now) later

theorem settled_forget (settled : Settled first w) : Settled first w.forget :=
  ⟨settled.toolchain, settled.sources, sound_of_empty first rfl⟩

/-- The memory of the resolver is transparent. Whatever was asked before, and however often the
caches were written to a file and taken from it again, a question is answered as by a resolver with
empty caches, on the first tree and on the present one, up to the spelling of the path of a source
file. -/
theorem answers_agree_forget (w : Workspace) (new : w.memory.caches = {})
    (rooted : w.files.cwd.isAbsolute = true) (lawful : w.world.toolchain.Lawful)
    (clearImports : ClearImports w.files) (events : List Event)
    (clear : ∀ e ∈ events, e.Clear w.files) (q : Question) (clearQuestion : q.Clear) :
    ((afterAll w events).ask q.query).1.Agrees (w.forget.ask q.query).1 ∧
      ((afterAll w events).ask q.query).1.Agrees ((afterAll w events).forget.ask q.query).1 := by
  have clearUnits := clearUnits_of_clearImports clearImports
  have begun : Settled w.world w := ⟨rfl, .refl w.files, sound_of_empty w.world new⟩
  have settled := begun.afterAll rooted lawful clearUnits clear
  have answer := (settled.ask rooted lawful clearUnits clearQuestion).1
  constructor
  · exact answer.both ((settled_forget begun).ask rooted lawful clearUnits clearQuestion).1
  · exact answer.both ((settled_forget settled).ask rooted lawful clearUnits clearQuestion).1

/-- A type is looked up through an import whose package is not called as its path suggests. The
caches went through a file and then met the source files under other spellings of their paths. -/
theorem answers_agree_forget_respelled :
    let files : FileTree := ⟨"/w", Dict.ofList [
      (["w"], .dir), (["w", "api"], .dir), (["w", "store"], .dir),
      (["w", "go.mod"], .file (Utf8.ofString "module example.com/app\n")),
      (["w", "api", "api.go"], .file (Utf8.ofString
        "package api\n\nimport \"example.com/app/store\"\n\ntype Handle = storage.DB\n")),
      (["w", "store", "store.go"], .file (Utf8.ofString
        "package storage\n\ntype DB struct { ID int }\n"))]⟩
    let w : Workspace := { world := ⟨files, .offline⟩ }
    let handle (dir : Path) : Question := .typeSpec "Handle" dir "example.com/app/api"
    let events : List Event := [
      .ask (handle "api"), .persist "cache.json", .ask (.importName "store/store.go"),
      .ask (.packageName "example.com/app/store" "/w"), .persist "cache.json", .ask (handle "//w")]
    ClearImports files ∧ (∀ e ∈ events, e.Clear files) ∧
      ((afterAll w events).ask (handle "api").query).1.Agrees
        (w.forget.ask (handle "api").query).1 ∧
      ((afterAll w events).ask (handle "api").query).1.Agrees
        ((afterAll w events).forget.ask (handle "api").query).1 := by
  intro files w handle events
  have clearImports : ClearImports files := by decide +kernel
  have cache : files.place? "cache.json" = some ["w", "cache.json"] := by decide +kernel
  have harmless : (Event.persist "cache.json").Clear files := by
    intro place led
    rw [cache] at led
    obtain rfl := Option.some.inj led
    decide
  have handles (dir : Path) : (handle dir).Clear := by
    change '#' ∉ "example.com/app/api".toList
    decide
  have package : (Question.packageName "example.com/app/store" "/w").Clear := by
    change '#' ∉ "example.com/app/store".toList
    decide
  have clear : ∀ e ∈ events, e.Clear files := by
    simp only [events, List.forall_mem_cons]
    exact ⟨handles "api", harmless, trivial, package, harmless, handles "//w", by simp⟩
  have offline : Toolchain.offline.Lawful := ⟨fun _ _ _ _ => rfl, fun _ _ _ _ => rfl⟩
  exact ⟨clearImports, clear, answers_agree_forget w rfl (by decide) offline clearImports events
    clear (handle "api") (handles "api")⟩

end Resolve
end Marginalia
