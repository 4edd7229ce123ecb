/-
Module: Marginalia.Go.Unit
Purpose: The declarations of one source file and the objects that it declares.
Main exports:
  TypeExpr, Field, TypeSpec, ValueSpec, Spec, GenDecl, FuncDecl, Decl, ImportDecl, ObjectRef,
  SourceUnit, SourceUnit.lookup, SourceUnit.lookupType
-/
import Marginalia.Go.Comment
import Marginalia.Go.Import
import Marginalia.Go.Tree
import Marginalia.Dict
import Marginalia.Path

namespace Marginalia.Go

/-! ### Types -/

mutual

/-- What a type is. -/
inductive TypeKind where
  | ident (name : String)
  | qualified (package name : String)
  | pointer (element : TypeExpr)
  | struct (fields : List Field)
  | interface (elements : List Field)
  | map
  | array
  | func
  | other (node : Kind)

/-- A type with its extent and text. -/
inductive TypeExpr where
  | mk (span : Span) (text : String) (kind : TypeKind)

/-- A field of a struct or an element of an interface; embedded ones have no names. -/
inductive Field where
  | mk (names : List String) (type : TypeExpr) (tag : Option String) (span : Span)
    (doc comment : Option CommentGroup)

end

instance : Inhabited TypeKind := ⟨.map⟩
instance : Inhabited TypeExpr := ⟨.mk default "" default⟩
instance : Inhabited Field := ⟨.mk [] default none default none none⟩

namespace TypeExpr

/-- The extent of a type. -/
def span : TypeExpr → Span
  | .mk s _ _ => s

/-- A type as it is written. -/
def text : TypeExpr → String
  | .mk _ t _ => t

/-- The kind of a type. -/
def kind : TypeExpr → TypeKind
  | .mk _ _ k => k

/-- A type that is no reference to another by name. -/
def isConcrete (t : TypeExpr) : Bool :=
  match t.kind with
  | .ident _ => false
  | .qualified _ _ => false
  | _ => true

end TypeExpr

namespace Field

/-- The names of a field; an embedded one has none. -/
def names : Field → List String
  | .mk ns _ _ _ _ _ => ns

/-- The type of a field. -/
def type : Field → TypeExpr
  | .mk _ t _ _ _ _ => t

/-- The tag of a field, as it is written. -/
def tag : Field → Option String
  | .mk _ _ t _ _ _ => t

/-- The extent of a field. -/
def span : Field → Span
  | .mk _ _ _ s _ _ => s

/-- The comments above a field. -/
def doc : Field → Option CommentGroup
  | .mk _ _ _ _ d _ => d

/-- The comments behind a field. -/
def comment : Field → Option CommentGroup
  | .mk _ _ _ _ _ c => c

end Field

/-! ### Declarations -/

/-- An import declaration: its extent, the offset of its closing parenthesis, and the extent and
path of every spec. -/
structure ImportDecl where
  span : Span
  close : Option Nat
  specs : List (Span × String)
deriving Repr, DecidableEq, Inhabited

/-- A declared type. -/
structure TypeSpec where
  name : String
  nameSpan : Span
  isAlias : Bool
  type : TypeExpr
  span : Span
  doc : Option CommentGroup
  comment : Option CommentGroup
deriving Inhabited

/-- Declared variables or constants. -/
structure ValueSpec where
  names : List String
  type : Option TypeExpr
  span : Span
  doc : Option CommentGroup
  comment : Option CommentGroup
deriving Inhabited

/-- One spec of a declaration. -/
inductive Spec where
  | type (spec : TypeSpec)
  | value (spec : ValueSpec)
deriving Inhabited

/-- The word that begins a declaration of specs. -/
inductive GenWord where
  | type
  | var
  | const
deriving Repr, DecidableEq, Inhabited

/-- A declaration of types, variables or constants. -/
structure GenDecl where
  word : GenWord
  span : Span
  grouped : Bool
  doc : Option CommentGroup
  specs : List Spec
deriving Inhabited

/-- A function or method. -/
structure FuncDecl where
  name : String
  nameSpan : Span
  receiver : Option String
  signature : String
  span : Span
  doc : Option CommentGroup
deriving Inhabited

/-- A declaration. -/
inductive Decl where
  | gen (decl : GenDecl)
  | func (decl : FuncDecl)
deriving Inhabited

/-! ### Objects -/

/-- What a name of the package refers to. -/
inductive Object where
  | func (decl : FuncDecl)
  | type (spec : TypeSpec)
  | value (spec : ValueSpec)

/-- The names that a spec declares; a blank declares nothing. -/
def Spec.names : Spec → List String
  | .type s => [s.name]
  | .value s => s.names.filter (· != "_")

/-- The object that a spec declares. -/
def Spec.object : Spec → Object
  | .type s => .type s
  | .value s => .value s

/-- Where an object is declared: the number of a function among the declarations, or the numbers of
a declaration and of a spec in it. -/
inductive ObjectRef where
  | func (decl : Nat)
  | spec (decl spec : Nat)
deriving Repr, DecidableEq, Inhabited

/-- The object at a place; none where the place is beyond the declarations or of the other kind. -/
def ObjectRef.object? (decls : List Decl) : ObjectRef → Option Object
  | .func i =>
    match decls[i]? with
    | some (.func f) => some (.func f)
    | _ => none
  | .spec i j =>
    match decls[i]? with
    | some (.gen g) => g.specs[j]?.map Spec.object
    | _ => none

/-- The names that a declaration with a number gives to the package, each with the place of its
object; methods belong to their receivers. -/
def Decl.refs (i : Nat) : Decl → List (String × ObjectRef)
  | .func f => if f.receiver.isNone then [(f.name, .func i)] else []
  | .gen g => g.specs.zipIdx.flatMap fun (spec, j) => spec.names.map fun n => (n, .spec i j)

/-- The place of the last object of each name among declarations. -/
def ObjectRef.index (decls : List Decl) : Dict String ObjectRef :=
  Dict.ofList (decls.zipIdx.flatMap fun (decl, i) => decl.refs i)

/-- The declarations of one source file. -/
structure SourceUnit where
  path : Path
  source : String
  package : String
  packageSpan : Span
  imports : Imports
  importDecls : List ImportDecl
  decls : List Decl
  /-- The place of the last object declared under each name. -/
  objects : Dict String ObjectRef
  indexed : objects = ObjectRef.index decls

namespace SourceUnit

instance : Inhabited SourceUnit := ⟨default, "", "", default, [], [], [], ∅, rfl⟩

/-- The object that a name refers to. -/
def lookup (unit : SourceUnit) (name : String) : Option Object :=
  (unit.objects.get? name).bind (·.object? unit.decls)

/-- The type that a name refers to. -/
def lookupType (unit : SourceUnit) (name : String) : Option TypeSpec :=
  match unit.lookup name with
  | some (.type spec) => some spec
  | _ => none

/-- The text at a span. -/
def text (unit : SourceUnit) (span : Span) : String :=
  span.text unit.source

/-- The directory of the file. -/
def dir (unit : SourceUnit) : Path :=
  unit.path.parent?.getD ""

/-- The name of the file without its directory. -/
def filename (unit : SourceUnit) : String :=
  unit.path.fileName?.getD ""

end SourceUnit
end Marginalia.Go
