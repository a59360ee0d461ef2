import Quasiquote.Text.Printable

/-!
# Text shown inside messages

Messages show text between quotes, on one line, with everything that would not print written as an
escape.

## Main Definitions

* `shownChar` — a character between single quotes
* `shown` — a text between double quotes

## Design Notes

The two forms differ only in the quote that has to be escaped, so both are built on `shownInside`,
which takes that quote as a parameter.
-/

namespace Quasiquote.Text

/-- The lowercase hexadecimal digits of a number, without leading zeros. -/
def hexDigits (n : Nat) : String := String.ofList (Nat.toDigits 16 n)

/-- The opening brace, as text. -/
def openBrace : String := "\x7b"

/-- The closing brace, as text. -/
def closeBrace : String := "\x7d"

/-- One character as it stands between quotes of the kind `quote`.

**Order of the rules.** The short escapes win; a character that extends its neighbour or does not
print is written by its code point; everything else stands for itself. -/
def shownInside (quote c : Char) : String :=
  if c = '\x00' then "\\0"
  else if c = '\t' then "\\t"
  else if c = '\r' then "\\r"
  else if c = '\n' then "\\n"
  else if c = '\\' then "\\\\"
  else if c = quote then String.ofList ['\\', c]
  else if isExtending c || !isPrintable c then "\\u" ++ openBrace ++ hexDigits c.toNat ++ closeBrace
  else c.toString

/-- A character between single quotes. -/
def shownChar (c : Char) : String := "\x27" ++ shownInside '\x27' c ++ "\x27"

/-- A text between double quotes. -/
def shown (text : String) : String :=
  "\"" ++ String.join (text.toList.map (shownInside '"')) ++ "\""

end Quasiquote.Text
