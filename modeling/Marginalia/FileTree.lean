/-
Module: Marginalia.FileTree
Purpose: A tree of files and directories as a value.
Main exports:
  FileTree, IoError, FileTree.locate, FileTree.read, FileTree.target, FileTree.write,
  FileTree.children, FileTree.makeDirs, FileTree.remove, FileTree.absolute
-/
import Marginalia.Dict
import Marginalia.Path
import Marginalia.Text.Utf8

namespace Marginalia

/-- Why a file could not be used. -/
inductive IoError where
  | notFound
  | notDirectory
  | isDirectory
  | fileExists
  | notText
deriving Repr, DecidableEq, Inhabited

/-- The wording of a file error. -/
def IoError.message : IoError → String
  | .notFound => "No such file or directory (os error 2)"
  | .notDirectory => "Not a directory (os error 20)"
  | .isDirectory => "Is a directory (os error 21)"
  | .fileExists => "File exists (os error 17)"
  | .notText => "stream did not contain valid UTF-8"

/-- What stands at a place of the tree. -/
inductive Entry where
  | file (content : Bytes)
  | dir
deriving Repr, DecidableEq, Inhabited

/-- A tree of files and directories, and the directory that relative paths start from. A place is
the list of names from the root; the root is always there. -/
structure FileTree where
  cwd : Path
  entries : Dict (List String) Entry

namespace FileTree

instance : Inhabited FileTree := ⟨⟨"/", ∅⟩⟩

/-- The empty tree, with a working directory. -/
def empty (cwd : Path) : FileTree := ⟨cwd, ∅⟩

/-- The entry at a place. -/
def at? (t : FileTree) (place : List String) : Option Entry :=
  if place.isEmpty then some .dir else t.entries.get? place

/-- A path, joined to the working directory when it is relative. -/
def absolute (t : FileTree) (p : Path) : Path :=
  if p.isAbsolute then p else t.cwd.join p

/-- Follow components from a place; every place on the way must be a directory. -/
def follow (t : FileTree) (place : List String) : List String → Except IoError (List String)
  | [] => .ok place
  | name :: rest =>
    match t.at? place with
    | none => .error .notFound
    | some (.file _) => .error .notDirectory
    | some .dir =>
      if name == "/" then follow t [] rest
      else if name == "." then follow t place rest
      else if name == ".." then follow t place.dropLast rest
      else follow t (place ++ [name]) rest

/-- Whether a path is written as that of a directory, with a slash or a dot at its end. -/
def namesDirectory (p : Path) : Bool :=
  match p.pieces.getLast? with
  | some piece => Path.isVoid piece
  | none => false

/-- The place that a path names; nothing need be there. -/
def locate (t : FileTree) (p : Path) : Except IoError (List String) :=
  if p.isEmpty then .error .notFound
  else
    match t.follow [] (t.absolute p).components with
    | .error e => .error e
    | .ok place =>
      match t.at? place with
      | some (.file _) => if namesDirectory p then .error .notDirectory else .ok place
      | _ => .ok place

/-- The entry that a path names. -/
def lookup (t : FileTree) (p : Path) : Except IoError Entry :=
  match t.locate p with
  | .error e => .error e
  | .ok place =>
    match t.at? place with
    | some e => .ok e
    | none => .error .notFound

/-- Whether a path names a file. -/
def isFile (t : FileTree) (p : Path) : Bool :=
  match t.lookup p with
  | .ok (.file _) => true
  | _ => false

/-- Whether a path names a directory. -/
def isDir (t : FileTree) (p : Path) : Bool :=
  match t.lookup p with
  | .ok .dir => true
  | _ => false

/-- Whether a path names anything. -/
def pathExists (t : FileTree) (p : Path) : Bool :=
  match t.lookup p with
  | .ok _ => true
  | .error _ => false

/-- The content of a file. -/
def read (t : FileTree) (p : Path) : Except IoError Bytes :=
  match t.lookup p with
  | .ok (.file content) => .ok content
  | .ok .dir => .error .isDirectory
  | .error e => .error e

/-- The content of a file as text. -/
def readText (t : FileTree) (p : Path) : Except IoError String :=
  match t.read p with
  | .error e => .error e
  | .ok bytes =>
    match Utf8.toString bytes with
    | .ok s => .ok s
    | .error _ => .error .notText

/-- Put an entry at a place. -/
def put (t : FileTree) (place : List String) (e : Entry) : FileTree :=
  { t with entries := t.entries.insert place e }

/-- The place where a path lets a file be written. The directory that holds it must be there, and
the path must not be written as that of a directory. -/
def target (t : FileTree) (p : Path) : Except IoError (List String) :=
  if p.isEmpty then .error .notFound
  else
    match t.follow [] (t.absolute p).components with
    | .error e => .error e
    | .ok place =>
      if p.pieces.getLast? = some "" then .error .isDirectory
      else
        match t.at? place with
        | some .dir => .error .isDirectory
        | some (.file _) => if namesDirectory p then .error .notDirectory else .ok place
        | none =>
          if namesDirectory p then .error .notFound
          else
            match t.at? place.dropLast with
            | some .dir => .ok place
            | some (.file _) => .error .notDirectory
            | none => .error .notFound

/-- Write a file. -/
def write (t : FileTree) (p : Path) (content : Bytes) : Except IoError FileTree :=
  match t.target p with
  | .error e => .error e
  | .ok place => .ok (t.put place (.file content))

/-- Make directories along components from a place on. -/
def makeFrom (t : FileTree) (place : List String) : List String → Except IoError FileTree
  | [] => .ok t
  | name :: rest =>
    if name == "/" then makeFrom t [] rest
    else if name == "." then makeFrom t place rest
    else if name == ".." then makeFrom t place.dropLast rest
    else
      let next := place ++ [name]
      match t.at? next with
      | some .dir => makeFrom t next rest
      | some (.file _) => .error (if rest.isEmpty then .fileExists else .notDirectory)
      | none => makeFrom (t.put next .dir) next rest

/-- Make a directory and those above it. -/
def makeDirs (t : FileTree) (p : Path) : Except IoError FileTree :=
  t.makeFrom [] (t.absolute p).components

/-- Whether a place is another or below it. -/
def isWithin (outer : List String) (place : List String) : Bool :=
  outer.isPrefixOf place

/-- Take away what a path names and all below it. -/
def remove (t : FileTree) (p : Path) : FileTree :=
  match t.locate p with
  | .error _ => t
  | .ok place => { t with entries := t.entries.filter fun k _ => !isWithin place k }

/-- The names directly inside a place, in order, with their entries. -/
def childrenOf (t : FileTree) (place : List String) : List (String × Entry) :=
  t.entries.entries.filterMap fun (key, e) =>
    match Path.dropComponents place key with
    | some [name] => some (name, e)
    | _ => none

/-- The names in a directory, in order, with their entries. -/
def children (t : FileTree) (p : Path) : Except IoError (List (String × Entry)) :=
  match t.locate p with
  | .error e => .error e
  | .ok place =>
    match t.at? place with
    | none => .error .notFound
    | some (.file _) => .error .notDirectory
    | some .dir => .ok (t.childrenOf place)

/-- The places of all files below a path, in order, each as a path relative to it. -/
def filesBelow (t : FileTree) (p : Path) : List Path :=
  match t.locate p with
  | .error _ => []
  | .ok place =>
    t.entries.entries.filterMap fun (key, e) =>
      match e, Path.dropComponents place key with
      | .file _, some names => some ("/".intercalate names)
      | _, _ => none

/-- The files of a tree that another lacks or has with other content, by their absolute paths. -/
def changedSince (t old : FileTree) : List (Path × Bytes) :=
  t.entries.entries.filterMap fun (place, e) =>
    match e with
    | .file content =>
      if old.at? place = some e then none
      else some ("/" ++ "/".intercalate place, content)
    | .dir => none

end FileTree
end Marginalia
