import Quasiquote.Source.Position

/-!
# Tokens

The tokens of the host language, with the quote marker as one more kind.

## Main Definitions

* `Token.Kind` — the categories of tokens
* `Token` — a category, the exact text, where it begins and ends, and its physical line
-/

namespace Quasiquote

/-- The categories of tokens. `marker` is the quote marker `$`; `newline` ends a logical line and
`lineBreak` does not; `indent`, `dedent` and `endMarker` stand for no text of their own. -/
inductive Token.Kind where
  | name
  | number
  | string
  | operator
  | marker
  | comment
  | newline
  | lineBreak
  | indent
  | dedent
  | endMarker
deriving DecidableEq, Repr, Inhabited

namespace Token.Kind

/-- The name of a category in a token listing. -/
def label : Token.Kind → String
  | name => "NAME"
  | number => "NUMBER"
  | string => "STRING"
  | operator => "OP"
  | marker => "MARKER"
  | comment => "COMMENT"
  | newline => "NEWLINE"
  | lineBreak => "NL"
  | indent => "INDENT"
  | dedent => "DEDENT"
  | endMarker => "ENDMARKER"

end Token.Kind

/-- A token of the host language. -/
structure Token where
  kind : Token.Kind
  /-- The source text of the token. -/
  text : String
  start : Position
  stop : Position
  /-- The physical line on which the token begins, with its line break. -/
  line : String
deriving DecidableEq, Repr, Inhabited

namespace Token

/-- Whether the token has this category and this text. -/
def isText (t : Token) (kind : Kind) (text : String) : Bool := t.kind == kind && t.text == text

/-- Whether the token is this operator. -/
def isOperator (t : Token) (text : String) : Bool := t.isText .operator text

/-- Whether the token is this word. -/
def isName (t : Token) (text : String) : Bool := t.isText .name text

end Token

end Quasiquote
