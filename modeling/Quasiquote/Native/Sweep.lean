import Quasiquote.Files.Tree
import Quasiquote.Native.ArtifactName
import Quasiquote.Native.Error
import Quasiquote.Quoter.FromFile
import Quasiquote.Site.Pragma
import Quasiquote.Site.Recognition

/-!
# Removing stale artifacts

An artifact is live while the module beside it, found by the name in the artifact's name, opts in
and holds a site of that kind with that body, or with the name of a file of those contents. All
others are stale and are removed.

## Main Definitions

* `Native.liveSites` — the kinds and hashes of a module's bodies
* `Native.Sweep` — a sweep in progress
* `Native.cleanup` — remove the stale artifacts in a directory, and below it if wanted

## Design Notes

The sites of a module are read when its first artifact is met and are not read again.
-/

namespace Quasiquote.Native

/-- The kinds and hashes of bodies that a module holds. -/
abbrev LiveSites := List (Site.Kind × String)

/-- The extension of modules. -/
def moduleExtension : String := "py"

/-- The contents of the file that a body names in a module, if it does. -/
def quotedContents {α : Type} [TextContents α] (files : FileTree α) (modulePath body : String) :
    Option String :=
  (namedFile? body).bind fun name => (files.readText (quotedPath modulePath name)).toOption

/-- What keeps artifacts of a site live: its body, and the contents of the file that it names. -/
def liveSitesOf {α : Type} [TextContents α] (files : FileTree α) (modulePath : String) (s : Site) :
    LiveSites :=
  match quotedContents files modulePath s.body with
  | some contents => [(s.kind, bodyHash contents), (s.kind, bodyHash s.body)]
  | none => [(s.kind, bodyHash s.body)]

/-- What keeps artifacts of a module live. A module that is missing, is no text, does not opt in or
cannot be rewritten keeps none. -/
def liveSites {α : Type} [TextContents α] (files : FileTree α) (modulePath : String) : LiveSites :=
  match files.readText modulePath with
  | .error _ => []
  | .ok source =>
    if Pragma.isEnabled source then
      match findSites source with
      | .ok sites => sites.flatMap (liveSitesOf files modulePath)
      | .error _ => []
    else []

/-- A sweep in progress. -/
structure Sweep (α : Type) where
  files : FileTree α
  /-- The live sites of the modules that were read so far, by their paths. -/
  modules : Table String LiveSites
  /-- The locations of the files that were removed, and their paths. -/
  removed : List (Location × String)

/-- A file that a sweep meets. -/
structure Candidate where
  location : Location
  /-- The path of the directory that holds it. -/
  directory : String
  name : String
deriving DecidableEq, Repr

namespace Candidate

/-- The path of the file. -/
def path (c : Candidate) : String := Path.join c.directory c.name

/-- The path of the module that an artifact of this name beside the file belongs to. -/
def modulePath (c : Candidate) (n : ArtifactName) : String :=
  Path.join c.directory (n.moduleName ++ "." ++ moduleExtension)

end Candidate

/-- What a sweep of a directory meets of an entry. -/
def candidate? {α : Type} (path : String) (directory : Location) (recurse : Bool)
    (p : Location × Node α) : Option Candidate :=
  match p.2, p.1.getLast? with
  | .file _, some name =>
    let holder := p.1.dropLast
    if holder = directory ∨ (recurse = true ∧ directory.isPrefixOf holder) then
      some {
        location := p.1
        directory := (holder.drop directory.length).foldl Path.join path
        name }
    else none
  | _, _ => none

/-- The files that a sweep of a directory meets. -/
def candidates {α : Type} (files : FileTree α) (path : String) (directory : Location)
    (recurse : Bool) : List Candidate :=
  files.entries.filterMap (candidate? path directory recurse)

namespace Sweep

variable {α : Type} [TextContents α]

/-- The live sites of a module, with the sweep that knows them. -/
def live (s : Sweep α) (modulePath : String) : LiveSites × Sweep α :=
  match s.modules.get? modulePath with
  | some sites => (sites, s)
  | none =>
    let sites := liveSites s.files modulePath
    (sites, { s with modules := s.modules.insert modulePath sites })

/-- Look at one file, and remove it if it is a stale artifact. -/
def visit (s : Sweep α) (c : Candidate) : Except CacheError (Sweep α) :=
  match ArtifactName.parse? c.name with
  | none => .ok s
  | some n =>
    let (sites, s) := s.live (c.modulePath n)
    if (n.kind, n.bodyHash) ∈ sites then .ok s
    else
      match s.files.remove c.path with
      | .error e => .error (.io c.path e)
      | .ok files => .ok { s with files, removed := (c.location, c.path) :: s.removed }

/-- Look at files one after another, up to the first that cannot be removed. -/
def run (s : Sweep α) : List Candidate → Except CacheError Unit × Sweep α
  | [] => (.ok (), s)
  | c :: rest =>
    match s.visit c with
    | .error e => (.error e, s)
    | .ok s => s.run rest

end Sweep

/-- Paths sorted by the names in their locations. -/
def sortPaths (paths : List (Location × String)) : List String :=
  (paths.mergeSort fun a b => (List.compareLex compare a.1 b.1).isLE).map Prod.snd

/-- What a cleanup does. -/
structure Cleanup (α : Type) where
  /-- The paths of the removed files, sorted, unless it fails. -/
  outcome : Except CacheError (List String)
  /-- What it leaves. What was removed before a failure stays removed. -/
  files : FileTree α

/-- The location of a directory that is swept. -/
def sweepRoot {α : Type} (files : FileTree α) (path : String) : Except IoError Location := do
  let location ← files.find path
  files.checkDirectory location
  return location

/-- Remove the stale artifacts in a directory, and in those below it if wanted. -/
def cleanup {α : Type} [TextContents α] (files : FileTree α) (path : String) (recurse : Bool) :
    Cleanup α :=
  match sweepRoot files path with
  | .error e => { outcome := .error (.io path e), files }
  | .ok directory =>
    let start : Sweep α := { files, modules := [], removed := [] }
    let (ended, s) := start.run (candidates files path directory recurse)
    { outcome := ended.map fun _ => sortPaths s.removed, files := s.files }

/-- The files that the bodies of a module name. -/
def namedPaths {α : Type} [TextContents α] (files : FileTree α) (modulePath : String) :
    List String :=
  match (files.readText modulePath).toOption.map findSites with
  | some (.ok sites) =>
    sites.filterMap fun s => (namedFile? s.body).map (quotedPath modulePath)
  | _ => []

/-- The files that a cleanup may read besides the directories that it sweeps. -/
def mentionedPaths {α : Type} [TextContents α] (files : FileTree α) (path : String)
    (recurse : Bool) : List String :=
  match sweepRoot files path with
  | .error _ => []
  | .ok directory =>
    (candidates files path directory recurse).flatMap fun c =>
      match ArtifactName.parse? c.name with
      | some n => namedPaths files (c.modulePath n)
      | none => []

end Quasiquote.Native
