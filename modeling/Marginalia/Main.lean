/-
Module: Marginalia.Main
Purpose: The command line program: reads the files, carries out the command and writes back.
Main exports:
  main
-/
import Marginalia.Command.Run

namespace Marginalia.Program

/-- A tree with one more entry of the disk and all below it. What cannot be read is left out, and
links are not followed. -/
partial def gather (t : FileTree) (e : IO.FS.DirEntry) : IO FileTree := do
  let p := e.path.toString
  try
    match (← e.path.symlinkMetadata).type with
    | .dir => (← e.path.readDir).foldlM gather ((t.makeDirs p).toOption.getD t)
    | .file =>
      let content ← IO.FS.readBinFile e.path
      return (t.write p content.toList).toOption.getD t
    | _ => return t
  catch _ => return t

/-- The files that a command run in a directory may need: those of the module that the directory
belongs to, or those below it when there is no module. -/
def snapshot : IO FileTree := do
  let here ← IO.currentDir
  let cwd : Path := here.toString
  let isModule (d : Path) : IO Bool := (here / d.join Resolve.modFileName).pathExists
  let top := (← cwd.ancestors.findM? isModule).getD cwd
  let start := FileTree.empty cwd
  let start := (start.makeDirs cwd).toOption.getD start
  (← (here / top).readDir).foldlM gather start

end Marginalia.Program

open Marginalia in
/-- Run the program on its arguments. Packages outside the module are not asked for. -/
def main (args : List String) : IO UInt32 := do
  let before ← Program.snapshot
  let out := Command.execute Toolchain.offline args before
  (← IO.getStdout).putStr out.stdout
  (← IO.getStderr).putStr out.stderr
  for (p, content) in out.files.changedSince before do
    IO.FS.writeBinFile p ⟨content.toArray⟩
  return out.code.toUInt32
