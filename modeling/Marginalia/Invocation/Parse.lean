/-
Module: Marginalia.Invocation.Parse
Purpose: The grammar of one annotation line, `name:arg:…:key=value:…`.
Main exports:
  Invocation, Invocation.parse?, Invocation.escape, Invocation.unescape, Invocation.splitPair
-/
import Marginalia.Invocation.Options
import Marginalia.Text.Chars

namespace Marginalia

/-!
An annotation is a sequence of segments between colons. The first names the plugin that it is for,
the next ones are positional arguments, as many as that plugin takes, and the rest are options
`key=value`. A colon written `\:` belongs to its segment; while the segments are told apart it is
held by a private-use character, which stays in arguments and option keys, and turns into a colon
in option values.
-/

/-- What an annotation asks of the plugin that it is for. -/
structure Invocation where
  args : List String
  options : Options

namespace Invocation

/-- The character between two segments. -/
def separator : Char := ':'

/-- The private-use character that holds the place of an escaped separator. -/
def placeholder : Char := Char.ofNat 0xE03A

/-- Every `\:`, from the left, becomes the placeholder. -/
def escapeChars : List Char → List Char
  | '\\' :: ':' :: rest => placeholder :: escapeChars rest
  | c :: rest => c :: escapeChars rest
  | [] => []

/-- Every placeholder becomes a colon. -/
def unescapeChars (cs : List Char) : List Char :=
  cs.map fun c => if c = placeholder then separator else c

/-- Hide the escaped separators of a text behind placeholders. -/
def escape (text : String) : String :=
  String.ofList (escapeChars text.toList)

/-- Show the placeholders of a text as separators. -/
def unescape (text : String) : String :=
  String.ofList (unescapeChars text.toList)

/-- The parts of a text around the first `sep`; without one, the text is a key with no value. -/
def splitPair (text sep : String) : String × String :=
  match Text.cut? sep.toList text.toList with
  | some (key, value) => (String.ofList key, String.ofList value)
  | none => (text, "")

/-- Add the options that segments of the form `key=value` give; an empty segment gives none. -/
def collect (segments : List String) (options : Options) : Options :=
  segments.foldl
    (fun acc segment =>
      if segment.isEmpty then acc
      else
        let (key, value) := splitPair segment "="
        acc.push key value)
    options

/-- The segments of an annotation, escaped separators shown as placeholders. -/
def segments (text : String) : List String :=
  (Text.splitOn separator (escapeChars text.toList)).map String.ofList

/-- Read an annotation for the plugin `name`, which takes `arity` arguments. There is no result
when the first segment is another name or too few segments follow it. The keys that the
annotation does not set have their values from `extra`. -/
def parse? (text name : String) (arity : Nat) (extra : Options) : Option Invocation :=
  match segments text with
  | [] => none
  | first :: rest =>
    if first ≠ name ∨ rest.length < arity then none
    else
      let own : Options := (collect (rest.drop arity) ∅).map unescape
      some { args := rest.take arity, options := own.withDefaults extra }

end Invocation
end Marginalia
