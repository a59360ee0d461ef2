import Quasiquote.Files.Error
import Quasiquote.Files.Path
import Quasiquote.Quoter.Basic
import Quasiquote.Text.Blank
import Quasiquote.Text.Lines

/-!
# Quoting files

A site may name a file instead of holding the code. A block names it on its only line that is not
blank, and an expression is the name.

## Main Definitions

* `namedFile?` — the name that a body holds
* `quotedPath` — the file that a name means in a module
* `Quoter.fromFile` — a quoter that hands the contents of a file to another one
-/

namespace Quasiquote

/-- The only line of a body that is not blank, without the blanks around it. -/
def namedFile? (body : String) : Option String :=
  match ((Text.lines body.toList).map Text.trim).filter fun line => !line.isEmpty with
  | [line] => some (String.ofList line)
  | _ => none

/-- The file that a name means in the module with a file name. Relative names start at the module's
directory. -/
def quotedPath (filename name : String) : String :=
  Path.join ((Path.parent? filename).getD "") name

namespace Quoter

variable {σ : Type}

/-- The text of the file that a site names. -/
def readNamed (readText : σ → String → Except IoError String) (name : String) :
    Quoting σ String := do
  let s ← get
  let path := quotedPath s.context.frame.filename name
  match readText s.world path with
  | .ok text => return text
  | .error e => throw (.io path e)

/-- The quoter that hands the contents of the file named by a site to another quoter. -/
def fromFile (readText : σ → String → Except IoError String) (inner : Quoter σ) : Quoter σ where
  capabilities := inner.capabilities
  quoteBlock body column := do
    match namedFile? body with
    | none => throw (.badBody "a file-quoted block holds exactly one file name")
    | some name => do
      let text ← readNamed readText name
      inner.quoteBlock text column
  quoteExpression body column := do
    let text ← readNamed readText (String.ofList (Text.trim body.toList))
    inner.quoteExpression text column

end Quoter

end Quasiquote
