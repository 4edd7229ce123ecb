/-
Module: Marginalia.Resolve.OutputPath
Purpose: Where a file generated for a declaration goes.
Main exports:
  fillTemplate, outputPath
-/
import Marginalia.Resolve.Module

namespace Marginalia.Resolve

/-! ### Templates -/

/-- The words that a placeholder may name. -/
inductive Placeholder where
  | name | package | filename
deriving Repr, DecidableEq, Inhabited

/-- The text that stands for a placeholder. -/
def Placeholder.word : Placeholder → List Char
  | .name => "Name".toList
  | .package => "Package".toList
  | .filename => "Filename".toList

/-- What a placeholder stands for in the file of a declaration. -/
def Placeholder.value (d : AnnotatedDecl) : Placeholder → String
  | .name => d.name
  | .package => d.unit.package
  | .filename => d.unit.filename

/-- The rest after a placeholder with a given word: braces, blanks, a dot, the word, blanks,
braces. -/
def afterPlaceholder? (p : Placeholder) (cs : List Char) : Option (List Char) := do
  let rest ← Text.after? ['\x7b', '\x7b'] cs
  let rest ← Text.after? ['.'] (Text.trimStart rest)
  let rest ← Text.after? p.word rest
  Text.after? ['\x7d', '\x7d'] (Text.trimStart rest)

/-- The placeholder at the start of a text, and the rest after it. -/
def placeholder? (cs : List Char) : Option (Placeholder × List Char) :=
  [Placeholder.name, .package, .filename].findSome? fun p =>
    (afterPlaceholder? p cs).map (p, ·)

/-- Fill every placeholder of a template, from the left; `skip` counts the characters of the last
placeholder still ahead. -/
def fillFrom (value : Placeholder → List Char) : (skip : Nat) → List Char → List Char
  | _, [] => []
  | skip + 1, _ :: rest => fillFrom value skip rest
  | 0, c :: rest =>
    match placeholder? (c :: rest) with
    | some (p, after) => value p ++ fillFrom value (rest.length - after.length) rest
    | none => c :: fillFrom value 0 rest

/-- A template with its placeholders filled for a declaration. -/
def fillTemplate (d : AnnotatedDecl) (template : String) : String :=
  String.ofList (fillFrom (fun p => (p.value d).toList) 0 template.toList)

/-! ### Output paths -/

/-- The extension of source files, with its dot. -/
def sourceSuffix : List Char := ".go".toList

/-- Drop every extension at the end of a name, at most `n` times. -/
def dropSuffixes : (n : Nat) → List Char → List Char
  | 0, cs => cs
  | n + 1, cs =>
    match Text.before? sourceSuffix cs with
    | some rest => dropSuffixes n rest
    | none => cs

/-- A name with the extension of source files exactly once. -/
def withSuffix (name : String) : String :=
  String.ofList (dropSuffixes name.length name.toList ++ sourceSuffix)

/-- A file name as it is; any other path is a directory that gets the default file. -/
def withDefaultFile (path default : String) : Path :=
  if (Text.before? sourceSuffix path.toList).isSome then path
  else Path.join path (withSuffix default)

/-- The path of a file generated for a declaration: its placeholders filled, with the default file
name for a directory, from the module's directory if the template is absolute and from the
declaration's own directory if not. -/
def outputPath (d : AnnotatedDecl) (template default : String) : Query Path := do
  let path := withDefaultFile (fillTemplate d template) default
  let dir := d.unit.dir
  if path.isAbsolute then
    let root := ((← modFile dir).bind Path.parent?).getD dir
    return root.join (String.ofList (path.toList.dropWhile (· == '/')))
  else
    return dir.join path

end Marginalia.Resolve
