import Quasiquote.Commands.CommandLine

/-!
# The program

The commands work on a file tree in memory. The program loads what the arguments speak of, runs the
command and makes the changes on the disk.

## Main Definitions

* `Disk.load` — the part of the disk that a path speaks of
* `Disk.apply` — make the changes between two trees
-/

namespace Quasiquote

namespace Disk

/-- A file tree as commands work on it. -/
abbrev Tree := FileTree (List UInt8)

/-- The current directory. -/
def currentLocation : IO Location := do
  return (Path.pieces (← IO.currentDir).toString).filter (· ≠ "")

/-- Load what there is at a path, and below it as far as the depth goes. -/
def loadTo (t : Tree) (path : String) : Nat → IO Tree
  | 0 => return t
  | depth + 1 => do
    let place := System.mkFilePath [path]
    if ← place.isDir then
      let t := (t.createDirectories path).2
      (← place.readDir).foldlM (fun t e => loadTo t (Path.join path e.fileName) depth) t
    else if ← place.pathExists then
      return t.plant path (← IO.FS.readBinFile place).toList
    else return t

/-- Load a path and the directories above it. -/
def load (t : Tree) (path : String) : IO Tree :=
  (Path.ancestors path).reverse.foldlM (fun t p => loadTo t p 1) t

/-- How deep directories are loaded. A longer path is refused by the system. -/
def depthLimit : Nat := FileTree.pathLimit

/-- Load what a command with some arguments works on. -/
def loadFor (t : Tree) (arguments : List String) : IO Tree := do
  match arguments with
  | "cleanup" :: options =>
    match cleanupArguments { path := ".", recurse := true } options with
    | .error _ => return t
    | .ok o =>
      let t ← loadTo (← load t o.path) o.path depthLimit
      (Native.mentionedPaths t o.path o.recurse).foldlM load t
  | _ => arguments.foldlM load t

/-- The path of a location. -/
def pathOf (location : Location) : String := "/" ++ "/".intercalate location

/-- Make one entry of a tree on the disk, unless it was there before. -/
def make (before : Tree) (entry : Location × Node (List UInt8)) : IO Unit := do
  match entry.2, before.get? entry.1 with
  | .directory, none => IO.FS.createDirAll (pathOf entry.1)
  | .file contents, some (.file old) =>
    if contents ≠ old then IO.FS.writeBinFile (pathOf entry.1) ⟨contents.toArray⟩
  | .file contents, _ => IO.FS.writeBinFile (pathOf entry.1) ⟨contents.toArray⟩
  | _, _ => return

/-- Make the changes between two trees on the disk. -/
def apply (before after : Tree) : IO Unit := do
  for entry in after.entries do
    make before entry
  for entry in before.entries do
    if (after.get? entry.1).isNone then IO.FS.removeFile (pathOf entry.1)

end Disk

end Quasiquote

open Quasiquote in
/-- Run the program. -/
def main (arguments : List String) : IO UInt32 := do
  let before ← Disk.loadFor (.emptyAt (← Disk.currentLocation)) arguments
  let report := runCommand before arguments
  Disk.apply before report.files
  (← IO.getStdout).putStr report.output
  (← IO.getStderr).putStr report.errors
  return UInt32.ofNat report.status
