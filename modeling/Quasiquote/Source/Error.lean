import Quasiquote.Source.Position
import Quasiquote.Text.Shown

/-!
# Lexical errors

What can be wrong with a source before its grammar is looked at.

## Main Definitions

* `LiteralError` — why a string literal denotes no text
* `LexError` — why a source cannot be split into tokens
-/

namespace Quasiquote

/-- The reasons for which the text of a string literal denotes nothing. -/
inductive LiteralError where
  /-- The text holds no quote at all. -/
  | noOpeningQuote (token : String)
  /-- The text does not end in the quotes that opened it. -/
  | notClosed (token : String) (delimiter : String)
  /-- The body ends in a backslash. -/
  | trailingBackslash
  /-- A hexadecimal escape has fewer digits than it needs. -/
  | truncatedEscape (digits : Nat)
  /-- A hexadecimal escape gives a number that is no character. -/
  | noCharacter (value : Nat)
deriving DecidableEq, Repr

namespace LiteralError

/-- The reason in words. -/
def reason : LiteralError → String
  | noOpeningQuote token => Text.shown token ++ " has no opening quote"
  | notClosed token delimiter => Text.shown token ++ " is not closed by " ++ delimiter
  | trailingBackslash => "trailing backslash"
  | truncatedEscape digits =>
    "truncated \\x escape, expected " ++ toString digits ++ " hex digits"
  | noCharacter value => "escape value 0x" ++ Text.hexDigits value ++ " is not a character"

end LiteralError

/-- The errors of reading a source. -/
inductive LexError where
  /-- A string literal that begins here does not end. -/
  | unterminatedString (pos : Position)
  /-- A line is indented less than the one before, but not as any open block. -/
  | inconsistentDedent (pos : Position)
  /-- A character that begins no token. -/
  | unexpectedCharacter (pos : Position) (c : Char)
  /-- A string literal that denotes no text. -/
  | invalidLiteral (cause : LiteralError)
deriving DecidableEq, Repr

namespace LexError

/-- Where the error is, if it is at one place of a source. -/
def position? : LexError → Option Position
  | unterminatedString pos => some pos
  | inconsistentDedent pos => some pos
  | unexpectedCharacter pos _ => some pos
  | invalidLiteral _ => none

/-- The text of the error. -/
def message : LexError → String
  | unterminatedString pos => pos.render ++ ": unterminated string literal"
  | inconsistentDedent pos =>
    pos.render ++ ": unindent does not match any outer indentation level"
  | unexpectedCharacter pos c => pos.render ++ ": unexpected character " ++ Text.shownChar c
  | invalidLiteral cause => "invalid string literal: " ++ cause.reason

end LexError

end Quasiquote
