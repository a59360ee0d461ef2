import Quasiquote.Files.Path
import Quasiquote.Native.ArtifactName
import Quasiquote.Native.Identifiers
import Quasiquote.Scope.Context

/-!
# Compilation units

## Main Definitions

* `Native.CompilationUnit` — what is needed to build a body
* `Native.compilationUnit` — the unit for a body in a context
* `Native.identityOf`, `Native.artifactNameOf` — its identity and its name
-/

namespace Quasiquote.Native

/-- What is needed to build a body. -/
structure CompilationUnit where
  kind : Site.Kind
  moduleName : String
  bodyHash : String
  tag : String
  /-- The file in which the source is kept. -/
  sourcePath : String
  /-- The file in which the compiled body is kept. -/
  artifactPath : String
  arguments : List String
  body : String
  /-- The host names that the body mentions. -/
  names : List String
  source : String
deriving Repr

/-- The name of the module in artifacts: its file's name up to the last dot, by which the file can
be found again, and else its own name. -/
def moduleStem (f : Frame) : String := (Path.stem? f.filename).getD f.moduleName

/-- The largest column. -/
def columnLimit : Nat := UInt32.size - 1

/-- The column at which the body of an expression starts, behind the opener and the quoter's name. A
context without that name gives the column of the site. -/
def bodyColumn (c : Context) (column : Nat) : Nat :=
  match c.quoterName with
  | some name => min (column + 3 + name.length) columnLimit
  | none => column

/-- The line on which a body starts. The body of a block starts below its site. -/
def bodyLine (c : Context) : Site.Kind → Nat
  | .block => c.frame.line + 1
  | .expression => c.frame.line

/-- The column at which a body of some kind starts. -/
def startColumn (c : Context) (column : Nat) : Site.Kind → Nat
  | .block => 0
  | .expression => bodyColumn c column

/-- The name of the artifact for a body. -/
def artifactNameOf (arguments : List String) (kind : Site.Kind) (body : String) (f : Frame) :
    ArtifactName :=
  .ofBody kind (moduleStem f) body (interfaceTag arguments)

/-- The file that holds the artifact for a body. -/
def artifactPathOf (arguments : List String) (kind : Site.Kind) (body : String) (f : Frame) :
    String :=
  Path.join (Path.directoryOf f.filename) (artifactNameOf arguments kind body f).artifactFile

/-- The file that holds the source for a body if it is kept. -/
def sourcePathOf (arguments : List String) (kind : Site.Kind) (body : String) (f : Frame) :
    String :=
  Path.join (Path.directoryOf f.filename) (artifactNameOf arguments kind body f).sourceFile

/-- The identity of a body. -/
def identityOf (arguments : List String) (kind : Site.Kind) (body : String) (f : Frame) :
    Identity :=
  { kind, moduleName := moduleStem f, body, tag := interfaceTag arguments, arguments }

/-- The unit for a body, quoted at a column in a context. -/
def compilationUnit (arguments : List String) (kind : Site.Kind) (body : String) (c : Context)
    (column : Nat) : CompilationUnit :=
  let visible := c.bindings
  let names := referencedNames body fun name => (visible.get? name).isSome
  let origin : Origin := { file := c.frame.filename, line := bodyLine c kind }
  { kind
    moduleName := moduleStem c.frame
    bodyHash := bodyHash body
    tag := interfaceTag arguments
    sourcePath := sourcePathOf arguments kind body c.frame
    artifactPath := artifactPathOf arguments kind body c.frame
    arguments
    body
    names
    source := wrapper kind body names origin (startColumn c column kind) }

end Quasiquote.Native
