import Quasiquote.Native.Fingerprint

/-!
# Names of artifacts

A compiled body is kept beside its module under a name that tells its kind, its module, the digest
of its body and its interface.

## Main Definitions

* `Native.ArtifactName` — the parts of a name
* `Native.ArtifactName.artifactFile`, `Native.ArtifactName.sourceFile` — the files with a name
* `Native.ArtifactName.parse?` — the name of a file

## Design Notes

The module's part may hold underscores, and the others hold none behind it. So a name is read from
its end.
-/

namespace Quasiquote.Native

/-- The parts of an artifact's name. -/
structure ArtifactName where
  kind : Site.Kind
  moduleName : String
  bodyHash : String
  tag : String
deriving DecidableEq, Repr

/-- The two parts of a text before and behind the last occurrence of a character. -/
def splitAtLast? (mark : Char) (text : List Char) : Option (List Char × List Char) :=
  match text.reverse.dropWhile (· ≠ mark) with
  | [] => none
  | _ :: front => some (front.reverse, (text.reverse.takeWhile (· ≠ mark)).reverse)

/-- What follows some characters at the beginning of a text. -/
def dropStart? (start text : List Char) : Option (List Char) :=
  if start.isPrefixOf text then some (text.drop start.length) else none

/-- Whether a character is a digit of a body's hash. -/
def isHexDigit (c : Char) : Bool := ('0' ≤ c && c ≤ '9') || ('a' ≤ c && c ≤ 'f')

/-- What the names of artifacts start with. -/
def artifactMark : String := "_qq_"

/-- The extension of compiled bodies. -/
def artifactExtension : String := "so"

/-- The extensions of compiled bodies on all systems, and that of kept sources. -/
def knownExtensions : List String := ["so", "dylib", "dll", "c"]

/-- The kind of an artifact, and what follows it in the name. -/
def splitKind? (text : List Char) : Option (Site.Kind × List Char) :=
  match dropStart? (kindWord .block ++ "_").toList text with
  | some rest => some (.block, rest)
  | none => (dropStart? (kindWord .expression ++ "_").toList text).map fun r => (.expression, r)

namespace ArtifactName

/-- The name for a body. -/
def ofBody (kind : Site.Kind) (moduleName body tag : String) : ArtifactName :=
  { kind, moduleName, bodyHash := Native.bodyHash body, tag }

/-- The name without an extension. -/
def stem (n : ArtifactName) : String :=
  artifactMark ++ kindWord n.kind ++ "_" ++ n.moduleName ++ "_" ++ n.bodyHash ++ "_" ++ n.tag

/-- The file that holds the compiled body. -/
def artifactFile (n : ArtifactName) : String := n.stem ++ "." ++ artifactExtension

/-- The file that holds the source if it is kept. -/
def sourceFile (n : ArtifactName) : String := n.stem ++ ".c"

/-- Whether the parts that were read from a file name can be those of an artifact. -/
def isWellFormed (n : ArtifactName) : Bool :=
  n.moduleName != "" && n.tag != "" && n.bodyHash.length == bodyHashBytes * 2 &&
    n.bodyHash.toList.all isHexDigit

/-- The name that a file has. -/
def parse? (file : String) : Option ArtifactName := do
  let (stem, extension) ← splitAtLast? '.' file.toList
  guard (String.ofList extension ∈ knownExtensions)
  let rest ← dropStart? artifactMark.toList stem
  let (kind, rest) ← splitKind? rest
  let (rest, tag) ← splitAtLast? '_' rest
  let (moduleName, hash) ← splitAtLast? '_' rest
  let name : ArtifactName :=
    { kind, moduleName := String.ofList moduleName, bodyHash := String.ofList hash,
      tag := String.ofList tag }
  if name.isWellFormed then some name else none

end ArtifactName

end Quasiquote.Native
