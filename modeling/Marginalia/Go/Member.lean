/-
Module: Marginalia.Go.Member
Purpose: The names that struct fields and interface elements contribute.
Main exports:
  TypeExpr.anonymousName?, Field.asMethod?, exportedFieldNames
-/
import Marginalia.Go.Unit

namespace Marginalia.Go

mutual

/-- The name that an embedded type goes by. -/
def TypeExpr.anonymousName? : TypeExpr → Option String
  | .mk _ _ kind => kind.anonymousName?

/-- The name that an embedded type of this kind goes by. -/
def TypeKind.anonymousName? : TypeKind → Option String
  | .ident name => some name
  | .qualified _ name => some name
  | .pointer element => element.anonymousName?
  | _ => none

end

/-- The name and type of an element that is a method, or of a field with a function type. -/
def Field.asMethod? (f : Field) : Option (String × TypeExpr) :=
  match f.type.kind, f.names with
  | .func, name :: _ => some (name, f.type)
  | _, _ => none

/-- The exported names among fields; an embedded field goes by the name of its type. -/
def exportedFieldNames (fields : List Field) : List String :=
  fields.flatMap fun f =>
    match f.names with
    | [] => f.type.anonymousName?.toList.filter isExported
    | names => names.filter isExported

end Marginalia.Go
