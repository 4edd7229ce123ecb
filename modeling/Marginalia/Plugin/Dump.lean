/-
Module: Marginalia.Plugin.Dump
Purpose: The plugin that prints the declarations bound to it.
Main exports:
  Dump.plugin, Dump.report, Registry.builtin
-/
import Marginalia.Json.Value
import Marginalia.Plugin.Basic

namespace Marginalia.Dump

open Json (Value)

/-- A member of a declaration, as printed. -/
def fieldValue (f : AnnotatedField) : Value :=
  .object [("names", .strings f.field.names), ("type", .string f.field.type.text),
    ("annotations", .strings f.annotations)]

/-- A bound declaration, as printed. -/
def entityValue (e : DeclEntity) : Value :=
  .object [("plugin", .string e.plugin), ("kind", .string e.decl.kind.name),
    ("name", .string e.decl.name), ("package", .string e.decl.unit.package),
    ("file", .string e.decl.unit.path), ("args", .strings e.args),
    ("options", .object (e.options.entries.map fun (k, v) => (k, .string v))),
    ("docs", .strings e.decl.docs), ("fields", .list (e.decl.fields.map fieldValue))]

/-- The option that asks for a report on one line. -/
def compactOption : String := "compact"

/-- The printed report: one document, on one line if any of the declarations asks for that. -/
def report (entities : List DeclEntity) : String :=
  let document := Value.list (entities.map entityValue)
  let text :=
    if entities.any fun e => e.options.isSet compactOption then Json.compact document
    else Json.indented 0 document
  String.ofList (text ++ ['\n'])

/-- The plugin. -/
def plugin : Plugin where
  name := "dump"
  options := Dict.ofList [(compactOption, "print JSON on a single line")]
  description := "print annotated declarations bound to this plugin as JSON"
  run entities files := { output := report entities, files }

end Marginalia.Dump

namespace Marginalia

/-- The registry with the plugins that are always there. -/
def Registry.builtin : Registry :=
  Registry.register ∅ Dump.plugin

end Marginalia
