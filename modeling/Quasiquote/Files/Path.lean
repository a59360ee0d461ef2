/-!
# Paths

Paths are texts. Pieces between slashes name files; an empty piece or a single dot stands for the
directory that has been reached, and two dots for the one above it.

## Main Definitions

* `Path.isAbsolute`, `Path.pieces` — how the file system reads a path
* `Path.parent?`, `Path.fileName?`, `Path.stem?` — the parts of a path
* `Path.join` — a path seen from a directory

## Design Notes

The parts of a path keep its spelling. Only slashes and single dots at the end are passed over, so
that `a//b/./` has the parent `a`. What a path begins with, a slash or a single dot, is its `head`;
it is never passed over.
-/

namespace Quasiquote.Path

/-- Whether a path starts at the root. -/
def isAbsolute (path : String) : Bool := path.toList.head? == some '/'

/-- The pieces of a text between slashes. -/
def piecesOf : List Char → List (List Char)
  | [] => [[]]
  | c :: rest =>
    if c = '/' then [] :: piecesOf rest
    else
      match piecesOf rest with
      | [] => [[c]]
      | piece :: pieces => (c :: piece) :: pieces

/-- The pieces of a path. -/
def pieces (path : String) : List String := (piecesOf path.toList).map String.ofList

/-- The head of a path, and what follows it. -/
def splitHead : List Char → List Char × List Char
  | '/' :: rest => (['/'], rest)
  | ['.'] => (['.'], [])
  | '.' :: '/' :: rest => (['.'], '/' :: rest)
  | path => ([], path)

/-- A reversed path without the slashes and single dots at its end. -/
def trimTail : List Char → List Char
  | '/' :: rest => trimTail rest
  | '.' :: '/' :: rest => trimTail rest
  | ['.'] => []
  | path => path

/-- What follows the head of a path, reversed, without slashes and single dots at the end. -/
def tail (path : String) : List Char := trimTail (splitHead path.toList).2.reverse

/-- The path without its last piece. The empty path and the root have none. -/
def parent? (path : String) : Option String :=
  let head := (splitHead path.toList).1
  match tail path with
  | [] => if head = ['.'] then some "" else none
  | reversed => some (String.ofList (head ++ (trimTail (reversed.dropWhile (· ≠ '/'))).reverse))

/-- The last piece of a path, if it names a file. -/
def fileName? (path : String) : Option String :=
  match ((tail path).takeWhile (· ≠ '/')).reverse with
  | [] => none
  | ['.', '.'] => none
  | name => some (String.ofList name)

/-- A file name up to its last dot. A dot at the beginning does not count. -/
def stemOf (name : String) : String :=
  match (name.toList.reverse.dropWhile (· ≠ '.')) with
  | [] => name
  | ['.'] => name
  | _ :: front => String.ofList front.reverse

/-- The last piece of a path up to its last dot. -/
def stem? (path : String) : Option String := (fileName? path).map stemOf

/-- A path seen from a directory. An absolute path stays as it is. -/
def join (directory path : String) : String :=
  if isAbsolute path then path
  else if directory.isEmpty || directory.toList.getLast? == some '/' then directory ++ path
  else directory ++ "/" ++ path

/-- The directory of a path, written as a dot if it is the current one. -/
def directoryOf (path : String) : String :=
  match parent? path with
  | some "" => "."
  | some directory => directory
  | none => "."

/-- A path followed by its parent, the parent's parent, and so on. -/
def ancestorsWithin : Nat → String → List String
  | 0, path => [path]
  | n + 1, path =>
    match parent? path with
    | some parent => path :: ancestorsWithin n parent
    | none => [path]

/-- A path followed by its parent, the parent's parent, and so on. -/
def ancestors (path : String) : List String := ancestorsWithin path.length path

/-- The components of a path that tell it from others, in order: its head and its pieces. -/
def components (path : String) : List String :=
  let (head, rest) := splitHead path.toList
  let head := if head.isEmpty then [] else [String.ofList head]
  head ++ ((piecesOf rest).map String.ofList).filter fun piece => piece != "" && piece != "."

end Quasiquote.Path
