/-
Module: Marginalia.Plugin.Basic
Purpose: Plugins, the registry that knows them by name, and their runs over a workspace.
Main exports:
  Plugin, PluginEffect, Registry, Selection, runPlugins
-/
import Marginalia.Annotated.Entity
import Marginalia.Workspace.State

namespace Marginalia

/-- What a plugin did: the text that it printed, the files after it, and why it failed if it did. -/
structure PluginEffect where
  output : String := ""
  files : FileTree
  failure : Option Error := none

/-- A plugin. Its arguments are described as `name:help`, its options by key with a help text. -/
structure Plugin where
  name : String
  args : List String := []
  options : Options := ∅
  description : String := ""
  run : List DeclEntity → FileTree → PluginEffect

/-! ### Registry -/

/-- Plugins by name. -/
abbrev Registry := Dict String Plugin

namespace Registry

/-- Add a plugin, in place of one with the same name. -/
def register (r : Registry) (p : Plugin) : Registry :=
  r.insert p.name p

/-- The plugin with a name. -/
def find (r : Registry) (name : String) : Except Error Plugin :=
  match r.get? name with
  | some p => .ok p
  | none => .error (.pluginNotFound name)

/-- All plugins, in the order of their names. -/
def plugins (r : Registry) : List Plugin :=
  r.entries.map (·.2)

end Registry

/-! ### Runs -/

/-- A plugin chosen for a run, with options for every annotation that does not set them. -/
structure Selection where
  plugin : Plugin
  options : Options := ∅

/-- The course of a run: what each plugin was given, what was printed, and how it ended. -/
structure RunReport where
  deliveries : List (String × List DeclEntity) := []
  output : String := ""
  failure : Option Error := none

/-- Run one plugin on the declarations that the workspace has now. -/
def Selection.run (s : Selection) (path : Path) (marker : String) (w : Workspace) :
    RunReport × Workspace :=
  match w.scan path marker with
  | (.error e, w) => ({ failure := some e }, w)
  | (.ok decls, w) =>
    let entities := bindAll decls s.plugin.name s.plugin.args.length s.options
    let effect := s.plugin.run entities w.files
    ({ deliveries := [(s.plugin.name, entities)], output := effect.output,
       failure := effect.failure }, w.withFiles effect.files)

/-- Run plugins one after the other, up to the first that fails. Each sees the files as the ones
before it left them. -/
def runPlugins (path : Path) (marker : String) :
    List Selection → Workspace → RunReport × Workspace
  | [], w => ({}, w)
  | s :: rest, w =>
    match s.run path marker w with
    | (report, w) =>
      if report.failure.isSome then (report, w)
      else
        let (others, w) := runPlugins path marker rest w
        ({ deliveries := report.deliveries ++ others.deliveries,
           output := report.output ++ others.output, failure := others.failure }, w)

end Marginalia
