/-
Module: Marginalia.Workspace.Listing
Purpose: A toolchain that answers through a package listing command.
Main exports:
  Listing, ListingOutput, Toolchain.listing
-/
import Marginalia.Workspace.Query

namespace Marginalia

/-- A listing command as it is started: the program, the directory it runs in and its arguments. -/
structure Listing where
  program : Path
  dir : Path
  args : List String
deriving Repr, DecidableEq

/-- What a listing command leaves behind. -/
structure ListingOutput where
  exitCode : Nat
  stdout : Bytes
  stderr : Bytes
deriving Repr, DecidableEq

/-- Output as text, without blanks at either end; bytes that are no text show as U+FFFD. -/
def Listing.text (bytes : Bytes) : String :=
  String.ofList (Text.trim (Utf8.decodeLossy bytes))

/-- The arguments that ask for one property of a package. -/
def Listing.argsFor (template pkg : String) : List String :=
  ["list", "-f", template, pkg]

/-- The answer of a listing command about a package: what it prints, if it can be started and
succeeds. It cannot be started without its program or outside a directory. -/
def Listing.answer (files : FileTree) (run : Listing → ListingOutput) (program : Path)
    (template pkg : String) (dir : Path) : Except String String :=
  if !files.isFile program || !files.isDir dir then
    .error s!"Failed to run {program}: {IoError.notFound.message}"
  else
    let out := run { program, dir, args := argsFor template pkg }
    if out.exitCode ≠ 0 then .error s!"{program} list {pkg} failed: {text out.stderr}"
    else .ok (text out.stdout)

/-- The toolchain that asks a listing command for every answer. -/
def Toolchain.listing (files : FileTree) (run : Listing → ListingOutput) (program : Path) :
    Toolchain where
  packageDir := Listing.answer files run program "\x7b\x7b.Dir\x7d\x7d"
  packageName := Listing.answer files run program "\x7b\x7b.Name\x7d\x7d"

end Marginalia
