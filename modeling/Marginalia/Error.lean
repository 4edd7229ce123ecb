/-
Module: Marginalia.Error
Purpose: What can go wrong, and how it is told.
Main exports:
  PatchFault, FormatFault, ConfigFault, Error, Error.message
-/
import Marginalia.FileTree
import Marginalia.Go.Build

namespace Marginalia

open Go (ParseError Span)

/-- Why an edit could not be applied to a file. -/
inductive PatchFault where
  | unreadable (e : IoError)
  | stale
  | outside (span : Span) (size : Nat)
  | overlap (span : Span)
deriving Repr, DecidableEq

/-- The wording of a patch fault. -/
def PatchFault.message : PatchFault → String
  | .unreadable e => "cannot read: " ++ e.message
  | .stale => "file changed since the edit was staged"
  | .outside span size => s!"span {span.start}..{span.stop} outside file of {size} bytes"
  | .overlap span => s!"span {span.start}..{span.stop} overlaps a previous replacement"

/-- Why the new content of a file is no source file. -/
inductive FormatFault where
  | notText
  | grammar
deriving Repr, DecidableEq

/-- The wording of a format fault. -/
def FormatFault.message : FormatFault → String
  | .notText => "rewritten source is not UTF-8"
  | .grammar => ParseError.grammar.message

/-- What is wrong with the configuration or with a setting given in its place. -/
inductive ConfigFault where
  | document
  | unknownFormat (name : String)
deriving Repr, DecidableEq

/-- The wording of a configuration fault, after the words that tell its kind. -/
def ConfigFault.message : ConfigFault → String
  | .document => ""
  | .unknownFormat name => s!": unknown format '{name}', expected text or json"

/-- What can go wrong. -/
inductive Error where
  | io (e : IoError)
  | config (fault : ConfigFault)
  | walk (path : Path) (e : IoError)
  | parse (path : Path) (e : ParseError)
  | resolve (reason : String)
  | patch (path : Path) (fault : PatchFault)
  | format (path : Path) (fault : FormatFault) (buffer : Bytes)
  | pluginNotFound (name : String)
  | plugin (name reason : String)
deriving Repr, DecidableEq

/-- How an error is told. -/
def Error.message : Error → String
  | .io e => "IO error: " ++ e.message
  | .config fault => "Config error" ++ fault.message
  | .walk path e => s!"Walk error: IO error for operation on {path}: {e.message}"
  | .parse path e => s!"Parse error in {path}: {e.message}"
  | .resolve reason => "Resolve error: " ++ reason
  | .patch path fault => s!"Patch error in {path}: {fault.message}"
  | .format path fault _ => s!"Format error in {path}: {fault.message}"
  | .pluginNotFound name => "Plugin not found: " ++ name
  | .plugin name reason => s!"Plugin {name} failed: {reason}"

end Marginalia
