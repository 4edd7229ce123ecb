/-
Module: Marginalia.Invocation.Options
Purpose: The key-value options of an annotation.
Main exports:
  Options, Options.value, Options.isSet, Options.push, Options.withDefaults
-/
import Marginalia.Dict

namespace Marginalia

/-- The options of one annotation. -/
abbrev Options := Dict String String

namespace Options

/-- The words that read as true. -/
def trueWords : List String := ["1", "t", "T", "true", "TRUE", "True"]

/-- The value of a key, or `default` when the key is absent or its value empty. -/
def value (options : Options) (key default : String) : String :=
  match options.get? key with
  | some v => if v.isEmpty then default else v
  | none => default

/-- Whether a key is present with an empty value or with a word that reads as true. -/
def isSet (options : Options) (key : String) : Bool :=
  match options.get? key with
  | some v => v.isEmpty || trueWords.contains v
  | none => false

/-- Add a value; a repeated key gets the values joined by commas. -/
def push (options : Options) (key value : String) : Options :=
  match options.get? key with
  | some old => options.insert key (old ++ "," ++ value)
  | none => options.insert key value

/-- Fill the keys that are absent. -/
def withDefaults (options defaults : Options) : Options :=
  defaults.entries.foldl
    (fun acc e => if acc.contains e.1 then acc else acc.insert e.1 e.2) options

end Options
end Marginalia
