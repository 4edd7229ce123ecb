/-
Module: Marginalia.Command.Run
Purpose: Requests carried out on a file tree.
Main exports:
  Outcome, pluginChoice, perform, execute
-/
import Marginalia.Command.Args
import Marginalia.Command.Report
import Marginalia.Plugin.Dump
import Marginalia.Resolve.Lookup

namespace Marginalia.Command

/-- The end of a command: exit code, printed text, text about what went wrong, the error behind it
and the files afterwards. -/
structure Outcome where
  code : Nat := 0
  stdout : String := ""
  stderr : String := ""
  failure : Option Error := none
  files : FileTree

/-! ### Tasks -/

/-- The name of a plugin and the options for it in `name:key=value:…`. -/
def pluginChoice (spec : String) : String × Options :=
  let (name, _) := Invocation.splitPair spec ":"
  match Invocation.parse? spec name 0 ∅ with
  | some i => (name, i.options)
  | none => (name, ∅)

/-- The plugins that are asked for, with their options. -/
def selections (registry : Registry) (config : Config) (specs : List String) :
    Except Error (List Selection) :=
  specs.mapM fun spec => do
    let (name, flags) := pluginChoice spec
    let plugin ← registry.find name
    return { plugin, options := config.pluginOptions name flags }

/-- The listing of declarations in a format. -/
def scanReport (format marker : String) (decls : List AnnotatedDecl) : Except Error String :=
  match format with
  | "json" => .ok (scanJson decls)
  | "text" => .ok (scanText marker decls)
  | other => .error (.config (.unknownFormat other))

/-- Carry out a task: what is printed, how it fails if it does, and the workspace after it. -/
def perform (registry : Registry) (marker : String) (w : Workspace) :
    Task → (String × Option Error) × Workspace
  | .run path specs =>
    match selections registry w.config specs with
    | .error e => (("", some e), w)
    | .ok chosen =>
      let (report, w) := runPlugins path marker chosen w
      ((report.output, report.failure), w)
  | .scan path format =>
    match w.scan path marker with
    | (.error e, w) => (("", some e), w)
    | (.ok decls, w) =>
      match scanReport format marker decls with
      | .error e => (("", some e), w)
      | .ok text => ((text, none), w)
  | .list => ((pluginListing registry, none), w)
  | .lookup name importPath dir =>
    let (found, w) := w.ask (Resolve.lookupTypeSpec name (w.files.absolute dir) importPath)
    ((lookupText name importPath found, none), w)

/-! ### Commands -/

/-- The name and version of the program. -/
def versionText : String := "annogen 0.1.0\n"

/-- How the program is used. -/
def usageText : String :=
  unlines
    ["Usage: annogen [OPTIONS] <COMMAND>", "", "Commands:",
      "  run [PATH] -p PLUGIN…      run plugins over a file or directory",
      "  scan [PATH] [--format F]   list annotated declarations as text or json",
      "  list                       list plugins",
      "  lookup NAME IMPORT_PATH    show the definition of a type [--dir DIR]", "", "Options:",
      "  --prefix PREFIX, --cache-file FILE, --config FILE, --offline, --help, --version"]

/-- The outcome of a failure. -/
def failed (files : FileTree) (stdout : String) (e : Error) : Outcome :=
  { code := 1, stdout, stderr := failureText e, failure := some e, files }

/-- The workspace that a request works in, and the file that its caches are kept in. -/
def openWorkspace (online : Toolchain) (r : Request) (files : FileTree) :
    Except Error (Workspace × Path) := do
  let config ← Config.load files r.configFile
  let config := { config with offline := config.offline || r.offline }
  let cacheFile := config.cachePath r.cacheFile
  let toolchain := if config.offline then Toolchain.offline else online
  let w ← Workspace.reload { config, world := { files, toolchain } } cacheFile
  return (w, cacheFile)

/-- Carry out a request. The caches are written also after a failure; whether that succeeds does
not matter. -/
def runRequest (online : Toolchain) (r : Request) (files : FileTree) : Outcome :=
  match openWorkspace online r files with
  | .error e => failed files "" e
  | .ok (w, cacheFile) =>
    let ((stdout, failure), w) :=
      perform Registry.builtin (w.config.markerFor r.marker) w r.task
    let files := match w.flush cacheFile with
      | .ok w => w.files
      | .error _ => w.files
    match failure with
    | some e => failed files stdout e
    | none => { stdout, files }

/-- Run the program on the words of a command line. `online` answers about packages outside the
module unless the request forbids asking. -/
def execute (online : Toolchain) (words : List String) (files : FileTree) : Outcome :=
  match readArgs words with
  | .request r => runRequest online r files
  | .version => { stdout := versionText, files }
  | .help => { stdout := usageText, files }
  | .misuse => { code := 2, stderr := usageText, files }

end Marginalia.Command
