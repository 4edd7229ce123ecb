/-
Module: Marginalia.Resolve.Qualify
Purpose: Type names put so that they mean the same in another package.
Main exports:
  requalifyBy, requalify
-/
import Marginalia.Go.Import

namespace Marginalia.Resolve

open Go (Imports defaultImportName isExported)

/-- Qualify a name by the package at an import path, which the imports grow by if they must. The
name of the package is what `real` tells, or else what its path suggests. -/
def qualify {m : Type → Type} [Monad m] (path name : String) (imports : Imports)
    (real : String → m (Option String)) : m (String × Imports) := do
  let declared := (← real path).getD (defaultImportName path)
  let (qualifier, grown) := imports.addNamed path declared
  return (qualifier ++ "." ++ name, grown)

/-- Requalify a name without a star. An unqualified exported name of another package is qualified by
it; a qualified name is resolved by the imports of its file, and loses its qualifier if it belongs
to `dst`; any other name is kept. -/
def requalifyBare {m : Type → Type} [Monad m] (name src dst : String)
    (srcImports dstImports : Imports) (real : String → m (Option String)) :
    m (String × Imports) := do
  match Text.cut? ['.'] name.toList with
  | none =>
    if isExported name && src != dst then qualify src name dstImports real
    else return (name, dstImports)
  | some (qualifier, inner) =>
    match ← srcImports.whichBy (String.ofList qualifier) (fun i => real i.path) with
    | none => return (name, dstImports)
    | some path =>
      if path == dst then return (String.ofList inner, dstImports)
      else qualify path (String.ofList inner) dstImports real

/-- Requalify a type name of the package `src` so that it means the same in the package `dst`; the
imports of the destination grow where needed. A leading star is kept. -/
def requalifyBy {m : Type → Type} [Monad m] (name src dst : String)
    (srcImports dstImports : Imports) (real : String → m (Option String)) :
    m (String × Imports) := do
  match name.toList with
  | '*' :: rest =>
    let (bare, grown) ← requalifyBare (String.ofList rest) src dst srcImports dstImports real
    return ("*" ++ bare, grown)
  | _ => requalifyBare name src dst srcImports dstImports real

/-- Requalify a type name with the package names that the import paths suggest. -/
def requalify (name src dst : String) (srcImports dstImports : Imports) : String × Imports :=
  Id.run (requalifyBy name src dst srcImports dstImports fun _ => return none)

end Marginalia.Resolve
