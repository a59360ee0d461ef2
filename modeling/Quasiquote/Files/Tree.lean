import Quasiquote.Files.Error
import Quasiquote.Files.Path
import Quasiquote.Table
import Quasiquote.Text.Utf8

/-!
# File trees

Files and directories, and the directory at which relative paths start.

## Main Definitions

* `FileTree` — what there is at each location
* `FileTree.find` — the location that a path leads to
* `FileTree.read`, `FileTree.readText` — the contents of a file
* `FileTree.write`, `FileTree.createFile`, `FileTree.remove`, `FileTree.rename` — changing one file
* `FileTree.createDirectories` — a directory with all those above it
* `FileTree.files` — the files below the current directory

## Design Notes

A location is the list of the names that lead to it from the root. The current directory is always
there, and so are those above it.

The kind of contents is a parameter, as not every tree holds bytes alone. `TextContents` says which
contents are texts.
-/

namespace Quasiquote

/-- Contents of files, some of which are texts. -/
class TextContents (α : Type) where
  /-- The text that a file's contents spell. -/
  text? : α → Option String

instance : TextContents (List UInt8) := ⟨Utf8.decodeString?⟩

/-- What there is at a location. -/
inductive Node (α : Type) where
  | directory
  | file (contents : α)
deriving DecidableEq, Repr

/-- The names that lead to a location from the root. -/
abbrev Location := List String

/-- Files and directories, in the order in which directories list them. -/
structure FileTree (α : Type) where
  /-- The directory at which relative paths start. -/
  current : Location
  entries : Table Location (Node α)
deriving DecidableEq, Repr

namespace FileTree

variable {α : Type}

/-- The tree with nothing but an empty current directory and those above it. -/
def emptyAt (current : Location) : FileTree α := { current, entries := [] }

instance : Inhabited (FileTree α) := ⟨emptyAt []⟩

/-- What there is at a location. -/
def get? (t : FileTree α) (location : Location) : Option (Node α) :=
  if location.isPrefixOf t.current then some .directory else t.entries.get? location

/-- The tree with something else at a location. -/
def put (t : FileTree α) (location : Location) (node : Node α) : FileTree α :=
  { t with entries := t.entries.insert location node }

/-- The tree without what is at a location. -/
def erase (t : FileTree α) (location : Location) : FileTree α :=
  { t with entries := t.entries.erase location }

/-! ### Following paths -/

/-- The greatest length of a name in bytes. -/
def nameLimit : Nat := 255

/-- The length in bytes that paths do not reach. -/
def pathLimit : Nat := 4096

/-- Refuse paths that no file system is asked about. -/
def checkPath (path : String) : Except IoError Unit :=
  if '\x00' ∈ path.toList then .error .nulInPath
  else if path.isEmpty then .error .notFound
  else if pathLimit ≤ path.utf8ByteSize then .error .nameTooLong
  else .ok ()

/-- Refuse a location that is no directory. -/
def checkDirectory (t : FileTree α) (location : Location) : Except IoError Unit :=
  match t.get? location with
  | some .directory => .ok ()
  | some (.file _) => .error .notADirectory
  | none => .error .notFound

/-- The location of a name in a directory, whether there is something or not. -/
def slot (directory : Location) (name : String) : Except IoError Location :=
  if nameLimit < name.utf8ByteSize then .error .nameTooLong else .ok (directory ++ [name])

/-- Follow one piece of a path. The directory above the root is the root. -/
def follow (t : FileTree α) (location : Location) (piece : String) : Except IoError Location := do
  t.checkDirectory location
  if piece = "" ∨ piece = "." then return location
  else if piece = ".." then return location.dropLast
  else
    let next ← slot location piece
    if (t.get? next).isSome then return next else throw .notFound

/-- Where a path starts. -/
def start (t : FileTree α) (path : String) : Location :=
  if Path.isAbsolute path then [] else t.current

/-- The location that a path leads to. -/
def find (t : FileTree α) (path : String) : Except IoError Location := do
  checkPath path
  (Path.pieces path).foldlM t.follow (t.start path)

/-- What a path leads to, if it leads anywhere. -/
def look (t : FileTree α) (path : String) : Option (Node α) :=
  (t.find path).toOption.bind t.get?

/-- Whether a path leads to a file. -/
def isFile (t : FileTree α) (path : String) : Bool :=
  match t.look path with
  | some (.file _) => true
  | _ => false

/-- Whether a path leads to a directory. -/
def isDirectory (t : FileTree α) (path : String) : Bool :=
  match t.look path with
  | some .directory => true
  | _ => false

/-! ### Reading -/

/-- The contents of the file at a location. -/
def readAt (t : FileTree α) (location : Location) : Except IoError α :=
  match t.get? location with
  | some (.file contents) => .ok contents
  | some .directory => .error .isADirectory
  | none => .error .notFound

/-- The contents of a file. -/
def read (t : FileTree α) (path : String) : Except IoError α := do
  t.readAt (← t.find path)

/-- The text of a file. -/
def readText [TextContents α] (t : FileTree α) (path : String) : Except IoError String := do
  match TextContents.text? (← t.read path) with
  | some text => return text
  | none => throw .notText

/-- The path of a location from a directory that holds it. -/
def pathFrom (directory location : Location) : String :=
  "/".intercalate (location.drop directory.length)

/-- The files below the current directory with their paths, in listing order. -/
def files (t : FileTree α) : List (String × α) :=
  t.entries.filterMap fun p =>
    match p.2 with
    | .file contents =>
      if t.current.isPrefixOf p.1 then some (pathFrom t.current p.1, contents) else none
    | .directory => none

/-! ### Changing -/

/-- The last piece of a path and those before it, and whether slashes follow it. -/
def splitLast (path : String) : List String × String × Bool :=
  let reversed := (Path.pieces path).reverse
  match reversed.dropWhile (· = "") with
  | [] => ([], "", true)
  | last :: front => (front.reverse, last, reversed.head? == some "")

/-- The directory in which the last piece of a path stands, that piece, and whether slashes follow
it. -/
def findParent (t : FileTree α) (path : String) : Except IoError (Location × String × Bool) := do
  checkPath path
  let (front, last, slash) := splitLast path
  let directory ← front.foldlM t.follow (t.start path)
  t.checkDirectory directory
  return (directory, last, slash)

/-- Whether a last piece names no file of its own. -/
def isDots (piece : String) : Bool := piece == "" || piece == "." || piece == ".."

/-- Write a file, which is made if there is none. -/
def write (t : FileTree α) (path : String) (contents : α) : Except IoError (FileTree α) := do
  let (directory, last, slash) ← t.findParent path
  if slash || isDots last then throw .isADirectory
  let location ← slot directory last
  match t.get? location with
  | some .directory => throw .isADirectory
  | _ => return t.put location (.file contents)

/-- Write a file where there is nothing yet. -/
def createFile (t : FileTree α) (path : String) (contents : α) : Except IoError (FileTree α) := do
  let (directory, last, slash) ← t.findParent path
  if slash || isDots last then throw .isADirectory
  let location ← slot directory last
  match t.get? location with
  | some _ => throw .alreadyExists
  | none => return t.put location (.file contents)

/-- Put a finished file at a path, in place of any file that is there. -/
def publish (t : FileTree α) (path : String) (contents : α) : Except IoError (FileTree α) := do
  let (directory, last, slash) ← t.findParent path
  if isDots last then throw .busy
  let location ← slot directory last
  match t.get? location with
  | some .directory => throw .isADirectory
  | _ => if slash then throw .notADirectory else return t.put location (.file contents)

/-- Move a file to a path, over any file that is there. -/
def rename (t : FileTree α) (source target : String) : Except IoError (FileTree α) := do
  let location ← t.find source
  let contents ← t.readAt location
  (t.erase location).publish target contents

/-- Remove a file. -/
def remove (t : FileTree α) (path : String) : Except IoError (FileTree α) := do
  let location ← t.find path
  match t.get? location with
  | some (.file _) => return t.erase location
  | some .directory => throw .isADirectory
  | none => throw .notFound

/-- Make a directory. -/
def createDirectory (t : FileTree α) (path : String) : Except IoError (FileTree α) := do
  let (directory, last, _) ← t.findParent path
  if isDots last then throw .alreadyExists
  let location ← slot directory last
  match t.get? location with
  | some _ => throw .alreadyExists
  | none => return t.put location .directory

/-- Make the first of some directories, each of which lies in the next one, with all those that are
missing. Those already made stay if a later one fails. -/
def createFirst (t : FileTree α) : List String → Except IoError Unit × FileTree α
  | [] => (.error (.other "failed to create whole tree"), t)
  | path :: above =>
    if path.isEmpty then (.ok (), t)
    else
      let settle (t : FileTree α) (e : IoError) : Except IoError Unit × FileTree α :=
        if t.isDirectory path then (.ok (), t) else (.error e, t)
      match t.createDirectory path with
      | .ok t => (.ok (), t)
      | .error .notFound =>
        match t.createFirst above with
        | (.error e, t) => (.error e, t)
        | (.ok (), t) =>
          match t.createDirectory path with
          | .ok t => (.ok (), t)
          | .error e => settle t e
      | .error e => settle t e

/-- Make a directory with all those above it that are missing. -/
def createDirectories (t : FileTree α) (path : String) : Except IoError Unit × FileTree α :=
  t.createFirst (Path.ancestors path)

/-- Make a file with the directories above it. Where that cannot be done the tree stays. -/
def plant (t : FileTree α) (path : String) (contents : α) : FileTree α :=
  let t := (t.createDirectories ((Path.parent? path).getD "")).2
  match t.write path contents with
  | .ok t => t
  | .error _ => t

/-- A location that was just filled holds what was put there, and no other changed. Locations above
the current directory cannot be filled. -/
theorem get?_put (t : FileTree α) {l : Location} (node : Node α) (m : Location)
    (h : l.isPrefixOf t.current = false) :
    (t.put l node).get? m = if m = l then some node else t.get? m := by
  unfold get? put
  by_cases hm : m = l
  · subst hm; simp [h, Table.get?_insert]
  · by_cases hp : m.isPrefixOf t.current <;> simp [hm, Table.get?_insert]

/-- A location that was just cleared holds nothing, and no other changed. -/
theorem get?_erase (t : FileTree α) {l : Location} (m : Location)
    (h : l.isPrefixOf t.current = false) :
    (t.erase l).get? m = if m = l then none else t.get? m := by
  unfold get? erase
  by_cases hm : m = l
  · subst hm; simp [h, Table.get?_erase]
  · by_cases hp : m.isPrefixOf t.current <;> simp [hm, Table.get?_erase]

end FileTree

end Quasiquote
