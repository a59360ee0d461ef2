import Quasiquote.Source.Lexer
import Quasiquote.Text.Alphanumeric

/-!
# Opting in

A source asks for its quote sites to be rewritten by an encoding declaration: a comment on its first
line, or on its second if the first is blank or a comment, in which `coding` is followed by a colon
or an equals sign and the name of the encoding.

## Main Definitions

* `Pragma.declared?` — the encoding that a line declares
* `Pragma.isEnabled` — whether a source declares `quasiquotes`
-/

namespace Quasiquote.Pragma

/-- The encoding by which a source opts in. -/
def encoding : String := "quasiquotes"

/-- The word before the declared name. -/
def keyword : List Char := "coding".toList

/-- The characters of an encoding's name. -/
def isNamePart (c : Char) : Bool :=
  Text.isAlphanumeric c || c == '-' || c == '_' || c == '.'

/-- The name behind the word `coding`: a colon or an equals sign, spaces and tabs, and a name that
is not empty. -/
def value? : List Char → Option (List Char)
  | [] => none
  | sign :: rest =>
    if sign = ':' ∨ sign = '=' then
      let name := (rest.dropWhile fun c => c == ' ' || c == '\t').takeWhile isNamePart
      if name.isEmpty then none else some name
    else none

/-- The first name that is declared anywhere in a comment. -/
def inComment? : List Char → Option (List Char)
  | [] => none
  | c :: rest =>
    if keyword.isPrefixOf (c :: rest) then
      (value? ((c :: rest).drop keyword.length)).or (inComment? rest)
    else inComment? rest

/-- The encoding that a line declares, if it is a comment that declares one. -/
def declared? (line : List Char) : Option (List Char) :=
  match line.dropWhile Scan.isGap with
  | '#' :: comment => inComment? comment
  | _ => none

/-- Whether a line is blank or a comment, so that the line below it may still declare. -/
def passes (line : List Char) : Bool :=
  match line.dropWhile Scan.isGap with
  | [] => true
  | c :: _ => c == '#'

/-- Whether the first of these lines that decides anything opts in. -/
def enabledBy : List (List Char) → Bool
  | [] => false
  | line :: lines =>
    match declared? line with
    | some name => name.map Char.toLower == encoding.toList
    | none => passes line && enabledBy lines

/-- Whether a source opts in. -/
def isEnabled (source : String) : Bool :=
  enabledBy ((Text.lines (stripMark source.toList)).take 2)

@[simp] theorem enabledBy_nil : enabledBy [] = false := rfl

end Quasiquote.Pragma
