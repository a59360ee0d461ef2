import Quasiquote.Commands.Error
import Quasiquote.Native.Fingerprint
import Quasiquote.Text.Lines
import Quasiquote.Text.Shown

/-!
# Listings

## Main Definitions

* `listTokens` — the tokens of a source, one on each line
* `listSites` — the quote sites of a source, one on each line
-/

namespace Quasiquote

/-- A text with blanks behind it up to a width. -/
def padTo (width : Nat) (text : String) : String :=
  text ++ String.ofList (List.replicate (width - text.length) ' ')

/-- The line of a token: kind, position and text. -/
def tokenLine (t : Token) : String :=
  "  " ++ padTo 9 t.kind.label ++ " " ++ padTo 7 t.start.render ++ " " ++ Text.shown t.text ++ "\n"

/-- The tokens of a source. -/
def listTokens (path source : String) : Except CommandError String :=
  match tokenize source with
  | .error e => .error (.lexical path e)
  | .ok tokens =>
    .ok ("Tokens for " ++ CommandError.quotedPath path ++ " (" ++ toString tokens.length ++
      " tokens):\n" ++ String.join (tokens.map tokenLine))

/-- The line of a site: position, kind, quoter, number of lines and the hash of the body. -/
def siteLine (s : Site) : String :=
  "  " ++ toString s.line ++ ":" ++ toString (s.column + 1) ++ "  " ++ padTo 5 s.kind.label ++
    " $" ++ padTo 12 s.quoter ++ " " ++ toString (max (Text.lines s.body.toList).length 1) ++
    " line(s)  " ++ Native.bodyHash s.body ++ "\n"

/-- The quote sites of a source. -/
def listSites (path source : String) : Except CommandError String :=
  match findSites source with
  | .error e => .error (.rewriting path e)
  | .ok sites =>
    .ok ("Sites in " ++ CommandError.quotedPath path ++ " (" ++ toString sites.length ++ "):\n" ++
      String.join (sites.map siteLine))

end Quasiquote
