import Quasiquote.Commands.Error
import Quasiquote.Files.Tree
import Quasiquote.Site.Rewriting

/-!
# Rewriting files

## Main Definitions

* `RewriteOptions` — where the output goes, and whether all sources opt in
* `rewriteSource` — the rewritten text of a source
* `rewriteFiles` — rewrite several files, one after another

## Design Notes

A file that cannot be rewritten does not keep the others from it.
-/

namespace Quasiquote

/-- The options of rewriting. -/
structure RewriteOptions where
  /-- The output file of a single input, and the output directory of several. -/
  output : Option String
  /-- Sources are rewritten whether they opt in or not. -/
  force : Bool
deriving DecidableEq, Repr

/-- A rewritten file. -/
structure Rewritten where
  path : String
  source : String
  /-- The file to which the source was written. -/
  written : Option String
deriving DecidableEq, Repr

/-- The rewritten text of a source. A source that does not opt in stays as it is unless it is
forced. -/
def rewriteSource (path source : String) (force : Bool) : Except CommandError String :=
  let rewritten :=
    if force then (transform source).map (·.source)
    else (transformSource source).map fun t => t.getD source
  match rewritten with
  | .ok text => .ok text
  | .error e => .error (.rewriting path e)

/-- The file to which the output for a path goes, if it is one of a number of inputs. -/
def outputPath (o : RewriteOptions) (inputs : Nat) (path : String) : Option String :=
  o.output.map fun out =>
    if inputs = 1 then out else Path.join out ((Path.fileName? path).getD path)

/-- Text of a file, or the error that it cannot be read. -/
def readSource (files : FileTree (List UInt8)) (path : String) : Except CommandError String :=
  match files.readText path with
  | .ok source => .ok source
  | .error e => .error (.unreadable path e)

/-- Rewrite one of a number of files. -/
def rewriteFile (o : RewriteOptions) (inputs : Nat) (files : FileTree (List UInt8))
    (path : String) : Except CommandError Rewritten × FileTree (List UInt8) :=
  match readSource files path with
  | .error e => (.error e, files)
  | .ok source =>
    match rewriteSource path source o.force with
    | .error e => (.error e, files)
    | .ok source =>
      match outputPath o inputs path with
      | none => (.ok { path, source, written := none }, files)
      | some out =>
        match files.write out (Utf8.encodeString source) with
        | .error e => (.error (.unwritable out e), files)
        | .ok files => (.ok { path, source, written := some out }, files)

/-- Rewrite files, each of which is one of a number of inputs. -/
def rewriteEach (o : RewriteOptions) (inputs : Nat) (files : FileTree (List UInt8)) :
    List String → List (Except CommandError Rewritten) × FileTree (List UInt8)
  | [] => ([], files)
  | path :: rest =>
    let (result, files) := rewriteFile o inputs files path
    let (results, files) := rewriteEach o inputs files rest
    (result :: results, files)

/-- Rewrite files. The output directory of several is made if it is missing. -/
def rewriteFiles (o : RewriteOptions) (files : FileTree (List UInt8)) (paths : List String) :
    List (Except CommandError Rewritten) × FileTree (List UInt8) :=
  match o.output with
  | some directory =>
    if 1 < paths.length then
      match files.createDirectories directory with
      | (.error e, files) => ([.error (.unwritable directory e)], files)
      | (.ok (), files) => rewriteEach o paths.length files paths
    else rewriteEach o paths.length files paths
  | none => rewriteEach o paths.length files paths

end Quasiquote
