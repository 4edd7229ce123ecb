/-
Module: Marginalia.Command.Args
Purpose: The words of a command line read into a request.
Main exports:
  Task, Request, Reading, readArgs
-/
import Marginalia.Config
import Marginalia.Text.Chars

namespace Marginalia.Command

/-! ### Requests -/

/-- What is to be done. -/
inductive Task where
  | run (path : Path) (plugins : List String)
  | scan (path : Path) (format : String)
  | list
  | lookup (name importPath : String) (dir : Path)
deriving Repr, DecidableEq

/-- A task and the settings that hold for it. -/
structure Request where
  task : Task
  marker : Option String := none
  cacheFile : Option Path := none
  configFile : Path := Config.fileName
  offline : Bool := false
deriving Repr, DecidableEq

/-- How the words of a command line read: as a request, as a question about the program itself, or
as nothing that it understands. -/
inductive Reading where
  | request (r : Request)
  | version
  | help
  | misuse
deriving Repr, DecidableEq

/-! ### Options -/

/-- What an option takes. -/
inductive OptionKind where
  /-- Nothing: its presence counts. -/
  | flag
  /-- A text, at most once. -/
  | text
  /-- A path, at most once and not empty. -/
  | path
  /-- A text, any number of times. -/
  | texts
  /-- Nothing: it ends the reading with an answer. -/
  | answer (r : Reading)
deriving Repr, DecidableEq

/-- An option: its long name, perhaps a letter, and what it takes. -/
structure OptionSpec where
  name : String
  letter : Option Char := none
  kind : OptionKind
deriving Repr, DecidableEq

/-- The options that may stand before and after the task. -/
def globalOptions : List OptionSpec :=
  [{ name := "prefix", kind := .text }, { name := "cache-file", kind := .path },
    { name := "config", kind := .path }, { name := "offline", kind := .flag },
    { name := "help", letter := some 'h', kind := .answer .help }]

/-- The option that asks for the version; it stands before the task only. -/
def versionOption : OptionSpec :=
  { name := "version", letter := some 'V', kind := .answer .version }

/-- A word of a command line. -/
inductive Word where
  | operand
  | endOfOptions
  | long (name : String) (attached : Option String)
  | short (letter : Char) (attached : Option String)
deriving Repr, DecidableEq

/-- The value attached to a letter; an equals sign before it is not part of it. -/
def attachedTo : List Char → Option String
  | [] => none
  | '=' :: rest => some (String.ofList rest)
  | rest => some (String.ofList rest)

/-- What a word is. A single dash is an operand. -/
def Word.of (w : String) : Word :=
  match w.toList with
  | '-' :: '-' :: [] => .endOfOptions
  | '-' :: '-' :: rest =>
    match Text.cut? ['='] rest with
    | some (name, value) => .long (String.ofList name) (some (String.ofList value))
    | none => .long (String.ofList rest) none
  | '-' :: c :: rest => .short c (attachedTo rest)
  | _ => .operand

/-- What the words up to some point give: values of options, and operands. -/
structure Given where
  values : List (String × String) := []
  operands : List String := []
deriving Repr, DecidableEq

/-- The last value of an option. -/
def Given.value? (g : Given) (name : String) : Option String :=
  (g.values.reverse.find? (·.1 == name)).map (·.2)

/-- All values of an option, in order. -/
def Given.valuesOf (g : Given) (name : String) : List String :=
  (g.values.filter (·.1 == name)).map (·.2)

/-- Give an option a value, if it may have it. -/
def Given.give (g : Given) (spec : OptionSpec) (value : String) : Except Reading Given :=
  let again := (g.value? spec.name).isSome
  let grown := { g with values := g.values ++ [(spec.name, value)] }
  match spec.kind with
  | .texts => .ok grown
  | .path => if again || value.isEmpty then .error .misuse else .ok grown
  | _ => if again then .error .misuse else .ok grown

/-- The option that a word names. -/
def optionOf? (specs : List OptionSpec) : Word → Option OptionSpec
  | .long name _ => specs.find? (·.name == name)
  | .short letter _ => specs.find? (·.letter == some letter)
  | _ => none

/-- The value attached to a word. -/
def Word.attached? : Word → Option String
  | .long _ v => v
  | .short _ v => v
  | _ => none

/-- An option that takes nothing: a letter may have further letters behind it, a name may have no
value. -/
def Given.raise (g : Given) (spec : OptionSpec) (w : Word) : Except Reading Given :=
  match spec.kind, w with
  | _, .long _ (some _) => .error .misuse
  | .answer r, _ => .error r
  | _, .short _ (some _) => .error .misuse
  | _, _ => g.give spec ""

/-- Whether an option takes a value. -/
def OptionSpec.takesValue (spec : OptionSpec) : Bool :=
  match spec.kind with
  | .flag => false
  | .answer _ => false
  | _ => true

/-- Read options and operands. With `first` set the reading stops at the first operand, which is
left with what follows it. -/
def readWords (specs : List OptionSpec) (first : Bool) (g : Given) :
    List String → Except Reading (Given × List String)
  | [] => .ok (g, [])
  | w :: rest =>
    match Word.of w with
    | .operand =>
      if first then .ok (g, w :: rest)
      else readWords specs first { g with operands := g.operands ++ [w] } rest
    | .endOfOptions =>
      if first then .error .misuse else .ok ({ g with operands := g.operands ++ rest }, [])
    | word =>
      match optionOf? specs word with
      | none => .error .misuse
      | some spec =>
        if !spec.takesValue then do
          let g ← g.raise spec word
          readWords specs first g rest
        else
          match word.attached?, rest with
          | some v, rest => do
            let g ← g.give spec v
            readWords specs first g rest
          | none, v :: rest =>
            if Word.of v = .operand then do
              let g ← g.give spec v
              readWords specs first g rest
            else .error .misuse
          | none, [] => .error .misuse

/-! ### Tasks -/

/-- The options of a task apart from the global ones; `none` for a word that names no task. -/
def taskOptions? : String → Option (List OptionSpec)
  | "run" => some [{ name := "plugin", letter := some 'p', kind := .texts }]
  | "scan" => some [{ name := "format", kind := .text }]
  | "list" => some []
  | "lookup" => some [{ name := "dir", kind := .path }]
  | _ => none

/-- The path that a task is about, where the operands may leave it out. -/
def pathOperand? : List String → Option Path
  | [] => some "."
  | [p] => if p.isEmpty then none else some p
  | _ => none

/-- The task that a word and what follows it ask for. -/
def taskOf? (name : String) (g : Given) : Option Task :=
  match name with
  | "run" => do
    let path ← pathOperand? g.operands
    let plugins := g.valuesOf "plugin"
    if plugins.isEmpty then none else some (.run path plugins)
  | "scan" => do
    let path ← pathOperand? g.operands
    some (.scan path ((g.value? "format").getD "text"))
  | "list" => if g.operands.isEmpty then some .list else none
  | "lookup" =>
    match g.operands with
    | [name, importPath] => some (.lookup name importPath ((g.value? "dir").getD "."))
    | _ => none
  | _ => none

/-- The request of a task with the options before and after it; those after it count first. -/
def requestOf (task : Task) (before after : Given) : Request :=
  let value? (name : String) := (after.value? name).or (before.value? name)
  { task
    marker := value? "prefix"
    cacheFile := value? "cache-file"
    configFile := (value? "config").getD Config.fileName
    offline := (value? "offline").isSome }

/-- Read the words of a command line, with what stops the reading as an error. -/
def readRequest (words : List String) : Except Reading Request := do
  let (before, rest) ← readWords (versionOption :: globalOptions) true {} words
  match rest with
  | [] => .error .misuse
  | "help" :: _ => .error .help
  | name :: rest =>
    match taskOptions? name with
    | none => .error .misuse
    | some specs =>
      let (after, _) ← readWords (specs ++ globalOptions) false {} rest
      match taskOf? name after with
      | none => .error .misuse
      | some task => .ok (requestOf task before after)

/-- How the words of a command line read. -/
def readArgs (words : List String) : Reading :=
  match readRequest words with
  | .ok r => .request r
  | .error reading => reading

end Marginalia.Command
