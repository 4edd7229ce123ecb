/-
Module: Marginalia.Command.Report
Purpose: The texts that commands print.
Main exports:
  scanText, scanJson, pluginListing, lookupText, failureText
-/
import Marginalia.Json.Value
import Marginalia.Plugin.Basic

namespace Marginalia.Command

open Json (Value)

/-! ### Annotated declarations -/

/-- The heading of a declaration; an underscore stands for a missing name. -/
def declHeading (d : AnnotatedDecl) : String :=
  let name := if d.name.isEmpty then "_" else d.name
  s!"{name} ({d.kind.name}) - {d.unit.path}:{d.line}"

/-- The lines about a declaration: its heading, its annotations and those of its fields. -/
def declLines (marker : String) (d : AnnotatedDecl) : List String :=
  let own := d.annotations.map fun a => s!"    {marker}{a}"
  let fields := d.fields.flatMap fun f =>
    f.annotations.map fun a => s!"    .{f.name} {marker}{a}"
  declHeading d :: own ++ fields

/-- Lines as text, each with its end. -/
def unlines (lines : List String) : String :=
  String.join (lines.map (· ++ "\n"))

/-- The plain listing of declarations. -/
def scanText (marker : String) (decls : List AnnotatedDecl) : String :=
  if decls.isEmpty then "No annotated declarations found\n"
  else
    unlines (decls.flatMap (declLines marker)) ++
      s!"\nTotal: {decls.length} declarations\n"

/-- A declaration as a document. -/
def declValue (d : AnnotatedDecl) : Value :=
  .object [("name", .string d.name), ("kind", .string d.kind.name),
    ("package", .string d.unit.package), ("file", .string d.unit.path),
    ("line", .number d.line), ("annotations", .strings d.annotations),
    ("fields", .list (d.fields.map fun f =>
      .object [("name", .string f.name), ("annotations", .strings f.annotations)]))]

/-- The listing of declarations as a document. -/
def scanJson (decls : List AnnotatedDecl) : String :=
  String.ofList (Json.indented 0 (.list (decls.map declValue))) ++ "\n"

/-! ### Plugins -/

/-- The line about an argument, which is described as `name:help`. -/
def argLine (arg : String) : String :=
  let (name, help) := Invocation.splitPair arg ":"
  s!"    <{name}>  {help}"

/-- The lines about a plugin. -/
def pluginLines (p : Plugin) : List String :=
  s!"{p.name} - {p.description}" :: p.args.map argLine ++
    p.options.entries.map fun (key, help) => s!"    {key}=  {help}"

/-- The listing of the plugins of a registry. -/
def pluginListing (r : Registry) : String :=
  if r.isEmpty then "No plugins registered\n"
  else unlines (r.plugins.flatMap pluginLines)

/-! ### Types -/

/-- The answer about a type. -/
def lookupText (name importPath : String) : Option (Go.TypeExpr × Go.SourceUnit) → String
  | some (type, unit) =>
    unlines [s!"{importPath}.{name} = {type.text}", s!"    declared in {unit.path}"]
  | none => unlines [s!"{importPath}.{name} not found"]

/-! ### Failures -/

/-- The errors behind an error, outermost first. -/
def causes : Error → List String
  | .io e => [e.message]
  | .walk path e => [s!"IO error for operation on {path}: {e.message}", e.message]
  | _ => []

/-- The paragraph about the errors behind an error; several are numbered. -/
def causeText : List String → String
  | [] => ""
  | [cause] => s!"\n\nCaused by:\n    {cause}"
  | several =>
    "\n\nCaused by:" ++
      String.join (several.zipIdx.map fun (cause, i) => s!"\n    {i}: {cause}")

/-- How a failed command tells its error. -/
def failureText (e : Error) : String :=
  s!"Error: {e.message}{causeText (causes e)}\n"

end Marginalia.Command
