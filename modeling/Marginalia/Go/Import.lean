/-
Module: Marginalia.Go.Import
Purpose: Import specs, import lists, and the names under which packages are referred to.
Main exports:
  Import, Imports, Imports.which, Imports.whichBy, Imports.addNamed, Imports.addedSince,
  Imports.render,
  defaultImportName, isExported
-/
import Marginalia.Text.Chars
import Marginalia.Text.Letter

namespace Marginalia.Go

/-- Whether a name is visible outside its package: it starts with an upper-case letter. -/
def isExported (name : String) : Bool :=
  match name.toList with
  | c :: _ => Text.isUpper c
  | [] => false

/-! ### The name that an import path suggests -/

/-- A path element `v1`, `v2`, … that tells a major version. -/
def isMajorVersion : List Char → Bool
  | 'v' :: digits => !digits.isEmpty && digits.all Char.isDigit
  | _ => false

/-- The last element of a path. -/
def lastElement (path : String) : String :=
  String.ofList ((Text.splitOn '/' path.toList).getLast?.getD [])

/-- The element of a path that its package is called after: the last, or the one before it when
the last tells a major version. -/
def nameElement (path : List Char) : List Char :=
  match (Text.splitOn '/' path).reverse with
  | last :: previous :: _ => if isMajorVersion last then previous else last
  | [last] => last
  | [] => []

/-- The package name that an import path is assumed to declare: its naming element without a
leading `go-`, up to the first character that no name has. -/
def defaultImportName (path : String) : String :=
  let element := nameElement path.toList
  let bare := (Text.after? ['g', 'o', '-'] element).getD element
  String.ofList (bare.takeWhile fun c => Text.isAlphanumeric c || c == '_')

/-! ### Import specs -/

/-- One import spec; `name` is the alias, when one is written. -/
structure Import where
  name : Option String
  path : String
deriving Repr, DecidableEq, Inhabited

namespace Import

/-- The name that the imported package is assumed to have in the file. -/
def localName (i : Import) : String :=
  i.name.getD (defaultImportName i.path)

/-- A blank or dot import, which no name refers to. -/
def isHidden (i : Import) : Bool :=
  i.name == some "_" || i.name == some "."

/-- The spec as it is written in an import block. -/
def render (i : Import) : String :=
  match i.name with
  | some name => name ++ " \"" ++ i.path ++ "\""
  | none => "\"" ++ i.path ++ "\""

/-- Order by path, then by alias, a missing alias first. -/
def le (a b : Import) : Bool :=
  match compare a.path b.path with
  | .lt => true
  | .gt => false
  | .eq =>
    match a.name, b.name with
    | none, _ => true
    | some _, none => false
    | some x, some y => compare x y != .gt

end Import

/-! ### Import lists -/

/-- The imports of a file, in the order of their declarations. -/
abbrev Imports := List Import

namespace Imports

/-- The first import of a path. -/
def find (imports : Imports) (path : String) : Option Import :=
  List.find? (·.path == path) imports

/-- The imports that a name can refer to. -/
def visible (imports : Imports) : Imports :=
  imports.filter fun i => !i.isHidden

/-- The path of the import with a local name. -/
def which (imports : Imports) (name : String) : Option String :=
  if name == "" || name == "_" || name == "." then none
  else (List.find? (·.localName == name) imports.visible).map (·.path)

/-- The path of the import with a local name; failing that, of the first visible import without
alias whose package is really called so, as `real` tells. -/
def whichBy {m : Type → Type} [Monad m] (imports : Imports) (name : String)
    (real : Import → m (Option String)) : m (Option String) := do
  if name == "" || name == "_" || name == "." then return none
  match imports.which name with
  | some path => return some path
  | none =>
    let unaliased := imports.visible.filter (·.name.isNone)
    let found ← unaliased.findM? fun i => return (← real i) == some name
    return found.map (·.path)

/-- The local names that are in use. -/
def taken (imports : Imports) : List String :=
  imports.visible.map Import.localName

/-- The first of `base ++ n`, `base ++ (n + 1)`, … that is not in use, within `fuel` trials. -/
def freshFrom (used : List String) (base : String) : (fuel n : Nat) → String
  | 0, n => base ++ String.ofList (Text.decimal n)
  | fuel + 1, n =>
    let candidate := base ++ String.ofList (Text.decimal n)
    if used.contains candidate then freshFrom used base fuel (n + 1) else candidate

/-- The name itself, or the name with the least number from 2 on that makes it unused. One trial
more than there are used names is enough. -/
def fresh (used : List String) (base : String) : String :=
  if used.contains base then freshFrom used base used.length 2 else base

/-- Import `path`, whose package is called `package`, unless a visible import has it already; the
result has the name to refer to it by. A name other than the last path element is written as an
alias. -/
def addNamed (imports : Imports) (path package : String) : String × Imports :=
  match List.find? (fun i => i.path == path && !i.isHidden) imports with
  | some i => (i.name.getD package, imports)
  | none =>
    let name := fresh imports.taken package
    let written := if name == lastElement path then none else some name
    (name, imports ++ [{ name := written, path }])

/-- Import `path` under the name that the path suggests. -/
def add (imports : Imports) (path : String) : String × Imports :=
  imports.addNamed path (defaultImportName path)

/-- Drop each element that equals the one before it. -/
def dropRepeats : Imports → Imports
  | a :: b :: rest => if a = b then dropRepeats (b :: rest) else a :: dropRepeats (b :: rest)
  | imports => imports

/-- The imports without repetition, by path and alias. -/
def inOrder (imports : Imports) : Imports :=
  dropRepeats (List.mergeSort imports Import.le)

/-- The imports that `base` does not have, in order. -/
def addedSince (imports base : Imports) : Imports :=
  inOrder (imports.filter fun i => !base.contains i)

/-- One import declaration for the whole list, in order; nothing for an empty list. -/
def render (imports : Imports) : String :=
  if imports.isEmpty then ""
  else
    imports.inOrder.foldl (fun acc i => acc ++ "\t" ++ i.render ++ "\n") "import (\n" ++ ")"

end Imports
end Marginalia.Go
