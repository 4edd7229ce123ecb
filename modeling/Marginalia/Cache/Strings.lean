/-
Module: Marginalia.Cache.Strings
Purpose: Answers of queries kept by their text, and the five stores of the resolver.
Main exports:
  StringStore, StringStore.keep, ModuleCache, StoreName
-/
import Marginalia.Dict

namespace Marginalia

/-- Answers by query. -/
abbrev StringStore := Dict String String

namespace StringStore

/-- Keep a computed answer, unless it is missing or empty; an empty answer counts as none. -/
def keep (store : StringStore) (key : String) : Option String → Option String × StringStore
  | none => (none, store)
  | some value => if value.isEmpty then (none, store) else (some value, store.insert key value)

end StringStore

/-- The queries of the resolver whose answers are kept. -/
inductive StoreName where
  | importName | importPath | packageName | packageDir | modFile
deriving Repr, DecidableEq, Inhabited

/-- The name of a store in a snapshot. -/
def StoreName.sectionName : StoreName → String
  | .importName => "importName"
  | .importPath => "importPath"
  | .packageName => "importPackageName"
  | .packageDir => "importPackageDir"
  | .modFile => "modFile"

/-- All stores, in the order in which a snapshot is read into them. -/
def StoreName.all : List StoreName :=
  [.importName, .importPath, .packageName, .packageDir, .modFile]

/-- The store with a name. -/
def StoreName.ofSection? (name : String) : Option StoreName :=
  StoreName.all.find? (·.sectionName == name)

/-- The stores of the resolver. -/
structure ModuleCache where
  importName : StringStore := ∅
  importPath : StringStore := ∅
  packageName : StringStore := ∅
  packageDir : StringStore := ∅
  modFile : StringStore := ∅

namespace ModuleCache

instance : Inhabited ModuleCache := ⟨{}⟩

/-- One store. -/
def store (c : ModuleCache) : StoreName → StringStore
  | .importName => c.importName
  | .importPath => c.importPath
  | .packageName => c.packageName
  | .packageDir => c.packageDir
  | .modFile => c.modFile

/-- Exchange one store. -/
def setStore (c : ModuleCache) (name : StoreName) (s : StringStore) : ModuleCache :=
  match name with
  | .importName => { c with importName := s }
  | .importPath => { c with importPath := s }
  | .packageName => { c with packageName := s }
  | .packageDir => { c with packageDir := s }
  | .modFile => { c with modFile := s }

end ModuleCache
end Marginalia
