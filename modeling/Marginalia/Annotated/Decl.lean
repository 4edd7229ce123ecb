/-
Module: Marginalia.Annotated.Decl
Purpose: Declarations and fields with the annotation lines in their comments.
Main exports:
  splitComments, DeclKind, AnnotatedDecl, AnnotatedField, annotatedDecls
-/
import Marginalia.Go.Unit

namespace Marginalia

open Go (CommentGroup Field FuncDecl GenDecl SourceUnit Span Spec TypeSpec ValueSpec)

/-! ### Comment lines -/

/-- The lines of a group's text, without blanks at either end. -/
def groupLines (group : CommentGroup) : List (List Char) :=
  Text.splitOn '\n' (Text.trim group.text.toList)

/-- What follows the marker in a line that starts with it, blanks apart. -/
def annotationOf? (marker line : List Char) : Option (List Char) :=
  Text.after? marker (Text.trim line)

/-- Split the lines of comment groups into documentation and annotations. A line that starts with
the marker is an annotation, without the marker; an empty marker makes no annotations. -/
def splitComments (marker : String) (groups : List (Option CommentGroup)) :
    List String × List String :=
  let lines := (groups.filterMap id).flatMap groupLines
  if marker.isEmpty then (lines.map String.ofList, [])
  else
    ((lines.filter fun l => (annotationOf? marker.toList l).isNone).map String.ofList,
      (lines.filterMap (annotationOf? marker.toList)).map String.ofList)

/-! ### Declarations -/

/-- The shape of an annotated declaration. -/
inductive DeclKind where
  | interface | struct | map | array | func | refer | function | value
deriving Repr, DecidableEq, Inhabited

/-- The name of a shape. -/
def DeclKind.name : DeclKind → String
  | .interface => "interface"
  | .struct => "struct"
  | .map => "map"
  | .array => "array"
  | .func => "func"
  | .refer => "refer"
  | .function => "function"
  | .value => "value"

/-- A named field or method with annotations of its own. -/
structure AnnotatedField where
  owner : String
  field : Field
  docs : List String
  annotations : List String
deriving Inhabited

/-- The first name of a field. -/
def AnnotatedField.name (f : AnnotatedField) : String :=
  f.field.names.head?.getD ""

/-- The declared thing. -/
inductive DeclNode where
  | type (spec : TypeSpec)
  | function (decl : FuncDecl)
  | value (spec : ValueSpec)
deriving Inhabited

/-- A declaration of a source file with at least one annotation. -/
structure AnnotatedDecl where
  unit : SourceUnit
  kind : DeclKind
  node : DeclNode
  docs : List String
  annotations : List String
  fields : List AnnotatedField
deriving Inhabited

namespace AnnotatedDecl

/-- The declared name; variables or constants declared together have none. -/
def name (d : AnnotatedDecl) : String :=
  match d.node with
  | .type spec => spec.name
  | .function decl => decl.name
  | .value spec =>
    match spec.names with
    | [n] => n
    | _ => ""

/-- The extent of the declaration. -/
def span (d : AnnotatedDecl) : Span :=
  match d.node with
  | .type spec => spec.span
  | .function decl => decl.span
  | .value spec => spec.span

/-- The line that the declaration starts on, counted from one. -/
def line (d : AnnotatedDecl) : Nat :=
  let before := (Go.splitAtByte? d.span.start d.unit.source.toList).map (·.1)
  (before.getD d.unit.source.toList).count '\n' + 1

end AnnotatedDecl

/-! ### Extraction -/

/-- An annotated function or method. -/
def annotatedFunc? (unit : SourceUnit) (marker : String) (decl : FuncDecl) :
    Option AnnotatedDecl :=
  let (docs, annotations) := splitComments marker [decl.doc]
  if annotations.isEmpty then none
  else some { unit, kind := .function, node := .function decl, docs, annotations, fields := [] }

/-- The annotated members of a type; embedded ones are left out. -/
def annotatedFields (marker owner : String) (members : List Field) : List AnnotatedField :=
  members.filterMap fun field =>
    if field.names.isEmpty then none
    else
      let (docs, annotations) := splitComments marker [field.doc, field.comment]
      if annotations.isEmpty then none else some { owner, field, docs, annotations }

/-- The shape of a declared type and its annotated members; other types are not reported. -/
def typeShape? (marker : String) (spec : TypeSpec) : Option (DeclKind × List AnnotatedField) :=
  match spec.type.kind with
  | .interface members => some (.interface, annotatedFields marker spec.name members)
  | .struct members => some (.struct, annotatedFields marker spec.name members)
  | .map => some (.map, [])
  | .array => some (.array, [])
  | .func => some (.func, [])
  | .ident _ => some (.refer, [])
  | .qualified _ _ => some (.refer, [])
  | .pointer _ => some (.refer, [])
  | .other _ => none

/-- The shape of a spec, the declared thing and its annotated members. -/
def specShape? (marker : String) : Spec → Option (DeclKind × DeclNode × List AnnotatedField)
  | .value spec => some (.value, .value spec, [])
  | .type spec => (typeShape? marker spec).map fun (kind, fields) => (kind, .type spec, fields)

/-- The comment groups of a spec: above and behind it. -/
def specGroups : Spec → List (Option CommentGroup)
  | .type spec => [spec.doc, spec.comment]
  | .value spec => [spec.doc, spec.comment]

/-- The annotated specs of a declaration. Annotations above the declaration are for every spec,
documentation above it only for a spec that stands alone. -/
def annotatedSpecs (unit : SourceUnit) (marker : String) (decl : GenDecl) : List AnnotatedDecl :=
  let (groupDocs, groupAnnotations) := splitComments marker [decl.doc]
  let single := !decl.grouped || decl.specs.length == 1
  decl.specs.filterMap fun spec =>
    let (specDocs, specAnnotations) := splitComments marker (specGroups spec)
    let annotations := groupAnnotations ++ specAnnotations
    if annotations.isEmpty then none
    else
      (specShape? marker spec).map fun (kind, node, fields) =>
        let docs := if single then groupDocs ++ specDocs else specDocs
        { unit, kind, node, docs, annotations, fields }

/-- The annotated declarations of a source file, in source order. -/
def annotatedDecls (unit : SourceUnit) (marker : String) : List AnnotatedDecl :=
  unit.decls.flatMap fun
    | .func decl => (annotatedFunc? unit marker decl).toList
    | .gen decl => annotatedSpecs unit marker decl

end Marginalia
