/-
Module: Marginalia.Path
Purpose: Slash-separated paths: components, parents, joining, extensions.
Main exports:
  Path, Path.components, Path.parent?, Path.fileName?, Path.join, Path.extension?, Path.below?
-/
import Marginalia.Text.Chars

namespace Marginalia

/-- A path as it is written. Paths with the same components name the same place. -/
abbrev Path := String

namespace Path

/-- Whether the path starts at the root. -/
def isAbsolute (p : Path) : Bool :=
  p.toList.head? == some '/'

/-- The pieces between slashes, without the empty one before a leading slash. -/
def pieces (p : Path) : List String :=
  let all := (Text.splitOn '/' p.toList).map String.ofList
  if p.isAbsolute then all.drop 1 else all

/-- Whether a piece, other than the first, names nothing: it is empty or a single dot. -/
def isVoid (piece : String) : Bool :=
  piece == "" || piece == "."

/-- The components: the root if the path starts there, then the pieces that name something. A
leading dot of a relative path counts. -/
def components (p : Path) : List String :=
  if p.isAbsolute then "/" :: p.pieces.filter (!isVoid ·)
  else match p.pieces with
    | "." :: rest => "." :: rest.filter (!isVoid ·)
    | all => all.filter (!isVoid ·)

/-- Drop the pieces at the end that name nothing. -/
def trimPieces (absolute : Bool) (pieces : List String) : List String :=
  match pieces with
  | "." :: rest =>
    if absolute then (pieces.reverse.dropWhile isVoid).reverse
    else "." :: (rest.reverse.dropWhile isVoid).reverse
  | _ => (pieces.reverse.dropWhile isVoid).reverse

/-- The path made of pieces. -/
def ofPieces (absolute : Bool) (pieces : List String) : Path :=
  let body := "/".intercalate pieces
  if absolute then "/" ++ body else body

/-- The path without its last component; the root and the empty path have none. -/
def parent? (p : Path) : Option Path :=
  match (trimPieces p.isAbsolute p.pieces).reverse with
  | [] => none
  | _ :: rest => some (ofPieces p.isAbsolute (trimPieces p.isAbsolute rest.reverse))

/-- The last component, unless it is the root, a dot or two dots. -/
def fileName? (p : Path) : Option String :=
  match p.components.getLast? with
  | some name => if name == "/" || name == "." || name == ".." then none else some name
  | none => none

/-- The part of a file name after its last dot; a dot at the start counts as none. -/
def extension? (p : Path) : Option String :=
  match p.fileName? with
  | none => none
  | some name =>
    match (Text.splitOn '.' name.toList).reverse with
    | _ :: [] => none
    | _ :: [[]] => none
    | last :: _ => some (String.ofList last)
    | [] => none

/-- `p` with `q` below it, or `q` alone when it is absolute. -/
def join (p q : Path) : Path :=
  if q.isAbsolute || p == "" then q
  else if p.toList.getLast? == some '/' then p ++ q
  else p ++ "/" ++ q

/-- The path and its parents, nearest first; at most `n` of them. -/
def ancestorsUpTo : (n : Nat) → Path → List Path
  | 0, _ => []
  | n + 1, p =>
    match p.parent? with
    | some q => p :: ancestorsUpTo n q
    | none => [p]

/-- The path and all its parents, nearest first. -/
def ancestors (p : Path) : List Path :=
  ancestorsUpTo (p.length + 1) p

/-- The components that follow those of `base`. -/
def dropComponents : (base all : List String) → Option (List String)
  | [], all => some all
  | b :: base, c :: all => if b = c then dropComponents base all else none
  | _ :: _, [] => none

/-- The components of a path below `base`; there are none when it is not below. -/
def below? (p base : Path) : Option (List String) :=
  dropComponents base.components p.components

/-- Whether a path names a Go source file. -/
def isGoFile (p : Path) : Bool :=
  p.extension? == some "go"

end Path
end Marginalia
