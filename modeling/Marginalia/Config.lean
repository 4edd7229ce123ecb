/-
Module: Marginalia.Config
Purpose: The configuration of a run.
Main exports:
  Config, Config.parse?, Config.load, Config.markerFor, Config.cachePath, Config.pluginOptions
-/
import Marginalia.Invocation.Options
import Marginalia.Error
import Marginalia.Toml.Document

namespace Marginalia

/-- The settings of a configuration file. -/
structure Config where
  marker : Option String := none
  cacheFile : Option Path := none
  skipDirs : List String := []
  offline : Bool := false
  plugins : Dict String Options := ∅

namespace Config

instance : Inhabited Config := ⟨{}⟩

/-- The name of configuration files. -/
def fileName : String := "annogen.toml"

/-- The marker of annotations unless another is set. -/
def defaultMarker : String := "+gen:"

/-- The file that caches are kept in unless another is set. -/
def defaultCacheFile : Path := ".annogencache"

/-! ### Reading -/

/-- A text. -/
def text? : Toml.Item → Option String
  | .text s => some s
  | _ => none

/-- A table of texts. -/
def options? : Toml.Item → Option Options
  | .table _ entries =>
    (entries.mapM fun (e : String × Toml.Item) => (text? e.2).map (e.1, ·)).map Dict.ofList
  | _ => none

/-- A table of tables of texts. -/
def plugins? : Toml.Item → Option (Dict String Options)
  | .table _ entries =>
    (entries.mapM fun (e : String × Toml.Item) => (options? e.2).map (e.1, ·)).map Dict.ofList
  | _ => none

/-- Take over one setting; there is no result for an unknown key or a value of another kind. -/
def set? (c : Config) (key : String) (item : Toml.Item) : Option Config :=
  match key, item with
  | "prefix", .text s => some { c with marker := some s }
  | "cache-file", .text s => some { c with cacheFile := some s }
  | "skip-dirs", .list items => (items.mapM text?).map fun dirs => { c with skipDirs := dirs }
  | "offline", .flag b => some { c with offline := b }
  | "plugins", item => (plugins? item).map fun plugins => { c with plugins }
  | _, _ => none

/-- The configuration that a document holds. -/
def parse? (document : String) : Option Config := do
  let table ← Toml.parse? document
  table.foldlM (fun c (key, item) => c.set? key item) {}

/-- The configuration in a file; a missing file leaves all settings at their defaults. -/
def load (files : FileTree) (p : Path) : Except Error Config :=
  match files.readText p with
  | .error .notFound => .ok {}
  | .error e => .error (.io e)
  | .ok document =>
    match parse? document with
    | some c => .ok c
    | none => .error (.config .document)

/-! ### Settings in force -/

/-- The marker of annotations: that of a flag, of the configuration, or the default. -/
def markerFor (c : Config) (flag : Option String) : String :=
  (flag.or c.marker).getD defaultMarker

/-- The cache file: that of a flag, of the configuration, or the default. -/
def cachePath (c : Config) (flag : Option Path) : Path :=
  (flag.or c.cacheFile).getD defaultCacheFile

/-- The options of a plugin, those of flags before those of the configuration. -/
def pluginOptions (c : Config) (plugin : String) (flags : Options) : Options :=
  flags.entries.foldl (fun acc e => acc.insert e.1 e.2) ((c.plugins.get? plugin).getD ∅)

end Config
end Marginalia
