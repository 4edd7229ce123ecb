/-
Module: Marginalia.Workspace.Scan
Purpose: The source files below a directory and their annotated declarations.
Main exports:
  skippedDirs, FileTree.walk, fileDecls, scan
-/
import Marginalia.Workspace.Query

namespace Marginalia

/-! ### Walking -/

/-- The names of directories that are never walked into. -/
def skippedDirs : List String := ["vendor", "node_modules", "testdata"]

/-- Whether a directory with this name is passed over. -/
def isPruned (skip : List String) (name : String) : Bool :=
  name.toList.head? == some '.' || skip.contains name

/-- The source files at a place, at most `depth` levels down, each under its path. -/
def FileTree.walkFrom (t : FileTree) (skip : List String) :
    (depth : Nat) → (place : List String) → Path → List Path
  | 0, _, _ => []
  | depth + 1, place, p =>
    (t.childrenOf place).flatMap fun (name, e) =>
      match e with
      | .file _ => if Path.isGoFile (p.join name) then [p.join name] else []
      | .dir =>
        if isPruned skip name then []
        else t.walkFrom skip depth (place ++ [name]) (p.join name)

/-- The source files below a path, directories before what they hold and names in order. A path
that names a file stands for itself. -/
def FileTree.walk (t : FileTree) (skip : List String) (p : Path) : Except Error (List Path) :=
  match t.locate p with
  | .error e => .error (.walk p e)
  | .ok place =>
    match t.at? place with
    | none => .error (.walk p .notFound)
    | some (.file _) => .ok (if p.isGoFile then [p] else [])
    | some .dir => .ok (t.walkFrom (skippedDirs ++ skip) (t.entries.size + 1) place p)

/-! ### Annotated declarations -/

/-- Whether some bytes occur in others. -/
def containsBytes (part : Bytes) : Bytes → Bool
  | [] => part.isEmpty
  | b :: rest => part.isPrefixOf (b :: rest) || containsBytes part rest

/-- The annotated declarations of one file. A file that is no source file or in which the marker
does not occur has none, and is not parsed. -/
def fileDecls (p : Path) (marker : String) : Query (Except Error (List AnnotatedDecl)) := do
  let p := (← read).files.absolute p
  if !p.isGoFile then return .ok []
  match ← readFile p with
  | .error e => return .error (.io e)
  | .ok content =>
    if !containsBytes (Utf8.ofString marker) content then return .ok []
    let key := Caches.declKey marker p
    match (← get).caches.decls.get? key content with
    | some hit => return .ok hit
    | none =>
      match ← parseBytes p content with
      | .error e => return .error e
      | .ok unit =>
        let compute : Unit → Except Error (List AnnotatedDecl) := fun _ =>
          .ok (annotatedDecls unit marker)
        let (loaded, decls) := (← get).caches.decls.load key content compute
        modify fun m => { m with caches := { m.caches with decls } }
        return loaded.answer

/-- The annotated declarations of files, in order, up to the first that fails. -/
def filesDecls (marker : String) : List Path → Query (Except Error (List AnnotatedDecl))
  | [] => return .ok []
  | p :: rest => do
    match ← fileDecls p marker with
    | .error e => return .error e
    | .ok decls =>
      match ← filesDecls marker rest with
      | .error e => return .error e
      | .ok others => return .ok (decls ++ others)

/-- The annotated declarations of a file, or of all source files below a directory. -/
def scan (skip : List String) (p : Path) (marker : String) :
    Query (Except Error (List AnnotatedDecl)) := do
  let files := (← read).files
  match files.lookup p with
  | .error e => return .error (.io e)
  | .ok (.file _) => fileDecls p marker
  | .ok .dir =>
    match files.walk skip p with
    | .error e => return .error e
    | .ok paths => filesDecls marker paths

end Marginalia
