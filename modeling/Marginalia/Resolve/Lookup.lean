/-
Module: Marginalia.Resolve.Lookup
Purpose: The definition of a type, followed through names and packages.
Main exports:
  lookupTypeSpec
-/
import Marginalia.Resolve.Module

namespace Marginalia.Resolve

open Go (SourceUnit TypeExpr)

/-- The most types that a chain of references may name. -/
def maxLookups : Nat := 32

/-- What the first file that declares a name declares it as; `none` if no file does. -/
def firstObject (name : String) : List Path → Query (Option (Go.Object × SourceUnit))
  | [] => return none
  | p :: rest => do
    match ← parseFile p with
    | .error _ => firstObject name rest
    | .ok unit =>
      match unit.lookup name with
      | some o => return some (o, unit)
      | none => firstObject name rest

/-- What a name means in the package at an import path, as seen from a directory. -/
def declaredObject (name : String) (dir : Path) (path : String) :
    Query (Option (Go.Object × SourceUnit)) := do
  if path.isEmpty then return none
  match ← packageImportDir path dir with
  | none => return none
  | some pkgDir => firstObject name (packageFiles (← read).files pkgDir)

/-- Follow a type name through at most `n` types to one that is no reference. -/
def lookupFrom (dir : Path) : (n : Nat) → (name path : String) →
    Query (Option (TypeExpr × SourceUnit))
  | 0, _, _ => return none
  | n + 1, name, path => do
    match ← declaredObject name dir path with
    | some (.type spec, unit) =>
      match spec.type.kind with
      | .qualified package inner =>
        match ← unit.imports.whichBy package (fun i => packageName i.path unit.dir) with
        | none => return none
        | some target => lookupFrom dir n inner target
      | .ident inner => lookupFrom dir n inner path
      | _ => return some (spec.type, unit)
    | _ => return none

/-- The definition of a type in the package at an import path, through other names and packages,
with the file that holds it. The path is resolved as seen from a directory. -/
def lookupTypeSpec (name : String) (dir : Path) (path : String) :
    Query (Option (TypeExpr × SourceUnit)) :=
  lookupFrom dir maxLookups name path

end Marginalia.Resolve
