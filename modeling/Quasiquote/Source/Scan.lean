import Quasiquote.Source.Position
import Quasiquote.Text.Lines

/-!
# How long the next token is

Every function of this file looks at the text ahead of a reader and answers how many characters of
it belong together. None of them moves the reader or knows about lines.

## Main Definitions

* `Scan.blankLength` — blanks, lone carriage returns and joined lines
* `Scan.numberLength`, `Scan.literalLength`, `Scan.operatorLength` — the tokens with rules of
  their own
* `Scan.indentWidth` — the width of an indentation
* `Scan.regionLines` — the lines of a block that are indented deeper than its header

## Design Notes

Answers are lengths, not pieces of text. A reader takes that many characters with `List.take` and
goes on with `List.drop`, so that no rule of this file can lose or repeat a character.
-/

namespace Quasiquote.Scan

/-! ### Characters -/

/-- Horizontal white space: space, tab and form feed. -/
def isGap (c : Char) : Bool := c == ' ' || c == '\t' || c == '\x0c'

/-- An identifier begins with a letter, an underscore or any character outside ASCII. -/
def isIdentStart (c : Char) : Bool := c.isAlpha || c == '_' || 0x80 ≤ c.toNat

/-- An identifier goes on with the same characters and with digits. -/
def isIdentPart (c : Char) : Bool := isIdentStart c || c.isDigit

/-- The two quotes that delimit string literals. -/
def isQuote (c : Char) : Bool := c == '"' || c == '\x27'

/-- A comment and a single-quoted literal end before either of these. -/
def endsLine (c : Char) : Bool := c == '\n' || c == '\r'

/-- The bracket depth behind a character. A closing bracket at depth zero is not counted. -/
def nest (depth : Nat) (c : Char) : Nat :=
  if c = '(' ∨ c = '[' ∨ c = '\x7b' then depth + 1
  else if c = ')' ∨ c = ']' ∨ c = '\x7d' then depth - 1
  else depth

/-! ### Line breaks and blanks -/

/-- The length of the line break at the beginning of a text, zero if there is none. A carriage
return breaks a line only together with the line feed after it. -/
def breakLength : List Char → Nat
  | '\n' :: _ => 1
  | '\r' :: '\n' :: _ => 2
  | _ => 0

/-- The length of what separates tokens on a logical line: horizontal white space, carriage returns
that break no line, and backslashes that join the next line to this one. -/
def blankLength : List Char → Nat
  | '\\' :: '\n' :: rest => blankLength rest + 2
  | '\\' :: '\r' :: '\n' :: rest => blankLength rest + 3
  | '\r' :: '\n' :: _ => 0
  | c :: rest => if isGap c || c == '\r' then blankLength rest + 1 else 0
  | [] => 0

/-- Where the blanks end, a carriage return stands before a line feed. -/
theorem breakLength_drop_blankLength {text : List Char} {c : Char} {rest : List Char}
    (h : text.drop (blankLength text) = c :: rest) (hc : endsLine c = true) :
    0 < breakLength (text.drop (blankLength text)) := by
  fun_induction blankLength text with
  | case1 text ih => simpa using ih (by simpa using h)
  | case2 text ih => simpa using ih (by simpa using h)
  | case3 text => simp [breakLength]
  | case4 d text hjoin hcrlf hret hd ih => simpa using ih (by simpa using h)
  | case5 d text hjoin hcrlf hret hd =>
    simp only [List.drop_zero, List.cons.injEq] at h
    obtain ⟨rfl, rfl⟩ := h
    simp only [Bool.or_eq_true, beq_iff_eq, not_or] at hd
    simp only [endsLine, Bool.or_eq_true, beq_iff_eq] at hc
    rcases hc with rfl | rfl
    · simp [breakLength]
    · simp at hd
  | case6 => simp at h

/-! ### Tokens with rules of their own -/

/-- The rest of a number: letters, digits, underscores and points, and a sign directly behind an
exponent mark unless the number is hexadecimal. -/
def numberTail (hexadecimal : Bool) : List Char → Nat
  | c :: sign :: rest =>
    if (c == 'e' || c == 'E') && (sign == '+' || sign == '-') && !hexadecimal then
      numberTail hexadecimal rest + 2
    else if c.isAlphanum || c == '_' || c == '.' then numberTail hexadecimal (sign :: rest) + 1
    else 0
  | [c] => if c.isAlphanum || c == '_' || c == '.' then 1 else 0
  | [] => 0

/-- Whether a text begins with the mark of a hexadecimal number. -/
def isHexadecimal : List Char → Bool
  | '0' :: 'x' :: _ => true
  | '0' :: 'X' :: _ => true
  | _ => false

/-- The length of the number at the beginning of a text. -/
def numberLength (text : List Char) : Nat := numberTail (isHexadecimal text) text

/-- Whether a text begins with a digit, or with a point and a digit. -/
def startsNumber : List Char → Bool
  | '.' :: d :: _ => d.isDigit
  | d :: _ => d.isDigit
  | [] => false

theorem numberLength_pos {text : List Char} (h : startsNumber text = true) :
    0 < numberLength text := by
  unfold numberLength
  generalize isHexadecimal text = hexadecimal
  match text with
  | [] => simp [startsNumber] at h
  | [c] =>
    have : c.isDigit = true := by
      unfold startsNumber at h
      split at h <;> simp_all
    simp [numberTail, Char.isAlphanum, this]
  | c :: sign :: rest =>
    have hc : (c.isAlphanum || c == '_' || c == '.') = true := by
      unfold startsNumber at h
      split at h <;> simp_all [Char.isAlphanum]
    unfold numberTail
    split <;> omega

/-- The length of a literal's body together with its closing quotes, and whether they are there. A
backslash takes the next character or line break with it. Without closing quotes the length is that
of the text that could have belonged to the literal: all of it, or for a literal in single quotes
the rest of the line. -/
def bodyLength (quote : Char) (triple : Bool) : List Char → Nat × Bool
  | '\\' :: '\r' :: '\n' :: rest => grow 3 (bodyLength quote triple rest)
  | '\\' :: _ :: rest => grow 2 (bodyLength quote triple rest)
  | ['\\'] => (1, false)
  | c :: rest =>
    if c = quote then
      if triple then
        if rest.take 2 = [quote, quote] then (3, true) else grow 1 (bodyLength quote triple rest)
      else (1, true)
    else if endsLine c && !triple then (0, false)
    else grow 1 (bodyLength quote triple rest)
  | [] => (0, false)
where
  /-- The same answer for a text with `n` more characters in front. -/
  grow (n : Nat) (answer : Nat × Bool) : Nat × Bool := (answer.1 + n, answer.2)

/-- The length of the string literal at the beginning of a text, prefix letters excluded, and
whether it is closed. -/
def literalLength : List Char → Nat × Bool
  | quote :: rest =>
    if rest.take 2 = [quote, quote] then
      bodyLength.grow 3 (bodyLength quote true (rest.drop 2))
    else bodyLength.grow 1 (bodyLength quote false rest)
  | [] => (0, false)

theorem literalLength_pos (quote : Char) (rest : List Char) :
    0 < (literalLength (quote :: rest)).1 := by
  simp only [literalLength]
  split <;> exact Nat.succ_pos _

/-- The letters that may stand before a string literal, in any case. -/
def isLiteralPrefix (letters : List Char) : Bool :=
  (letters.map Char.toLower) ∈
    [['r'], ['u'], ['b'], ['f'], ['b', 'r'], ['r', 'b'], ['f', 'r'], ['r', 'f']]

/-! ### Operators -/

/-- The operators of three characters. -/
def operators3 : List (List Char) :=
  ["**=".toList, "//=".toList, ">>=".toList, "<<=".toList, "...".toList]

/-- The operators of two characters. -/
def operators2 : List (List Char) :=
  ["**".toList, "//".toList, "<<".toList, ">>".toList, "<=".toList, ">=".toList, "==".toList,
   "!=".toList, "->".toList, ":=".toList, "+=".toList, "-=".toList, "*=".toList, "/=".toList,
   "%=".toList, "&=".toList, "|=".toList, "^=".toList, "@=".toList]

/-- The operators of one character. -/
def operators1 : List Char := "()[]\x7b\x7d:,;.+-*/%&|^~<>=@!".toList

/-- The characters in the first `bytes` bytes of a text, provided that the last of these bytes ends
a character or the text is shorter. -/
def window : Nat → List Char → Option (List Char)
  | 0, _ => some []
  | _, [] => some []
  | bytes + 1, c :: rest =>
    if c.utf8Size ≤ bytes + 1 then (window (bytes + 1 - c.utf8Size) rest).map (c :: ·) else none

/-- The length of the operator at the beginning of a text, zero if none begins there.

**Where longer operators are looked for.** They are looked for in the next three bytes, and only if
these bytes are whole characters. -/
def operatorLength (text : List Char) : Nat :=
  let ahead := (window 3 text).getD []
  if operators3.any (·.isPrefixOf ahead) then 3
  else if operators2.any (·.isPrefixOf ahead) then 2
  else if (text.take 1).any operators1.contains then 1
  else 0

/-! ### Indentation and blocks -/

/-- The columns between two tab stops. -/
def tabWidth : Nat := 8

/-- The width of an indentation with one more character. A tab goes on to the next stop and a form
feed starts again. -/
def widen (width : Nat) (c : Char) : Nat :=
  if c = '\t' then (width / tabWidth + 1) * tabWidth
  else if c = '\x0c' then 0
  else width + 1

/-- The width of the indentation at the beginning of a text. -/
def indentWidth (text : List Char) : Nat := (text.takeWhile isGap).foldl widen 0

/-- The first character behind the indentation of a text. -/
def afterIndent (text : List Char) : Option Char := (text.dropWhile isGap).head?

/-- Whether a text begins with a line that holds nothing but its indentation. A NUL character ends
such a line too. -/
def isBlankLine (text : List Char) : Bool :=
  match afterIndent text with
  | none => true
  | some c => endsLine c || c == '\x00'

/-- Whether a text begins with a line that holds only a comment. -/
def isCommentLine (text : List Char) : Bool := afterIndent text == some '#'

/-- Whether a line cannot end a block: it is blank, or it is a comment not deeper than the header or
shallower than the block's first line. `body` is the width of that line, once it has been seen. -/
def isTentative (outer : Nat) (body : Option Nat) (line : List Char) : Bool :=
  isBlankLine line ||
    (isCommentLine line && (indentWidth line ≤ outer || body.any (indentWidth line < ·)))

/-- The lines of the block that follows a header indented by `outer`: all up to the last one that
is not tentative, before the first one that is neither tentative nor deeper than the header. -/
def regionLines (outer : Nat) (body : Option Nat) : List (List Char) → List (List Char)
  | [] => []
  | line :: lines =>
    if isTentative outer body line then
      match regionLines outer body lines with
      | [] => []
      | found => line :: found
    else if indentWidth line ≤ outer then []
    else line :: regionLines outer (some (body.getD (indentWidth line))) lines

/-- The number of characters before the first occurrence of `needle`. -/
def findLength (needle : List Char) : List Char → Option Nat
  | [] => if needle.isEmpty then some 0 else none
  | c :: rest =>
    if needle.isPrefixOf (c :: rest) then some 0 else (findLength needle rest).map (· + 1)

/-- What is found lies in the text. -/
theorem findLength_le {needle text : List Char} {n : Nat} (h : findLength needle text = some n) :
    n + needle.length ≤ text.length := by
  induction text generalizing n with
  | nil =>
    simp only [findLength, List.isEmpty_iff] at h
    split at h
    · next hn => cases h; simp [hn]
    · simp at h
  | cons c rest ih =>
    unfold findLength at h
    split at h
    · next hp =>
      cases h
      rw [Nat.zero_add]
      exact (List.isPrefixOf_iff_prefix.1 hp).length_le
    · obtain ⟨m, hm, rfl⟩ := Option.map_eq_some_iff.1 h
      have := ih hm
      simp only [List.length_cons]
      omega

end Quasiquote.Scan
