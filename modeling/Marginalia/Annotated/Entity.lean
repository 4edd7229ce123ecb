/-
Module: Marginalia.Annotated.Entity
Purpose: Annotated declarations and fields matched against a plugin.
Main exports:
  DeclEntity, FieldEntity, AnnotatedDecl.bind, bindAll, groupBy, groupByDir
-/
import Marginalia.Annotated.Decl
import Marginalia.Invocation.Parse

namespace Marginalia

/-- A declaration and what one of its annotations asks of a plugin. -/
structure DeclEntity where
  decl : AnnotatedDecl
  plugin : String
  args : List String
  options : Options

/-- A field of an annotated declaration, by its position, and what one of its annotations asks. -/
structure FieldEntity where
  index : Nat
  field : AnnotatedField
  args : List String
  options : Options

namespace AnnotatedDecl

/-- The entities of a declaration for a plugin, one for each matching annotation. -/
def bind (d : AnnotatedDecl) (plugin : String) (arity : Nat) (extra : Options) :
    List DeclEntity :=
  d.annotations.filterMap fun text =>
    (Invocation.parse? text plugin arity extra).map fun i =>
      { decl := d, plugin, args := i.args, options := i.options }

/-- The entities of the fields of a declaration for a plugin. -/
def bindFields (d : AnnotatedDecl) (plugin : String) (arity : Nat) (extra : Options) :
    List FieldEntity :=
  d.fields.zipIdx.flatMap fun (field, index) =>
    field.annotations.filterMap fun text =>
      (Invocation.parse? text plugin arity extra).map fun i =>
        { index, field, args := i.args, options := i.options }

end AnnotatedDecl

/-- The entities of declarations for a plugin. -/
def bindAll (decls : List AnnotatedDecl) (plugin : String) (arity : Nat) (extra : Options) :
    List DeclEntity :=
  decls.flatMap (·.bind plugin arity extra)

/-- Entities by key, in order within each group; those with an empty key are left out. -/
def groupBy (key : DeclEntity → String) (entities : List DeclEntity) :
    Dict String (List DeclEntity) :=
  entities.foldl
    (fun groups e =>
      if (key e).isEmpty then groups
      else groups.alter (key e) fun old => old.getD [] ++ [e])
    ∅

/-- Entities by the directory of the declaring file. -/
def groupByDir (entities : List DeclEntity) : Dict String (List DeclEntity) :=
  groupBy (fun e => e.decl.unit.dir) entities

end Marginalia
