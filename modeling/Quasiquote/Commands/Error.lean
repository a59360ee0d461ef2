import Quasiquote.Native.Error
import Quasiquote.Site.Recognition

/-!
# Errors of commands

## Main Definitions

* `CommandError` — why a command fails
* `CommandError.message` — what it tells the user
-/

namespace Quasiquote

/-- Why a command fails. -/
inductive CommandError where
  | unreadable (path : String) (cause : IoError)
  | unwritable (path : String) (cause : IoError)
  | rewriting (path : String) (cause : RewriteError)
  | lexical (path : String) (cause : LexError)
  | cleaning (cause : Native.CacheError)
deriving DecidableEq, Repr

namespace CommandError

/-- A path between quotes. -/
def quotedPath (path : String) : String := "\x27" ++ path ++ "\x27"

/-- What is told of a file that cannot be read. -/
def readMessage (path : String) : IoError → String
  | .notFound => "cannot find file " ++ quotedPath path
  | .notText => quotedPath path ++ " contains invalid UTF-8 data"
  | cause => "error reading " ++ quotedPath path ++ ": " ++ cause.message

/-- The blanks that lead to a column of a line. Tabs stay tabs, so that columns fall together. -/
def indentTo (line : List Char) (column : Nat) : List Char :=
  (line.take column).map fun c => if c = '\t' then '\t' else ' '

/-- What is told of a source that cannot be rewritten: the place, the reason and, for a malformed
site, its line with a mark below the column. -/
def rewriteMessage (path : String) (cause : RewriteError) : String :=
  path ++ ":" ++ cause.message ++
    match cause with
    | .malformedSite pos _ line =>
      "\n    " ++ line ++ "\n    " ++ String.ofList (indentTo line.toList pos.column) ++ "^"
    | .lexical _ => ""

/-- What the user is told. -/
def message : CommandError → String
  | unreadable path cause => readMessage path cause
  | unwritable path cause => "cannot write " ++ quotedPath path ++ ": " ++ cause.message
  | rewriting path cause => rewriteMessage path cause
  | lexical path cause => path ++ ":" ++ cause.message
  | cleaning cause => cause.message

end CommandError

end Quasiquote
