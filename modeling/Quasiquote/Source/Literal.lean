import Quasiquote.Source.Error
import Quasiquote.Decimal.Reading

/-!
# String literals

The written form of a text as a string literal on one line, and the text that a literal denotes.

## Main Definitions

* `Literal.quote` — a text as a double-quoted literal without line breaks
* `Literal.unquote` — the text of a literal with any letters and any quotes

## Main Statements

* `Literal.cook_append_plain` — a text without backslashes denotes itself, whatever follows it
-/

namespace Quasiquote.Literal

/-! ### Writing -/

/-- Whether `c` is a control character of ASCII. -/
def isControl (c : Char) : Bool := c.toNat < 0x20 || c.toNat == 0x7f

/-- A byte as two lowercase hexadecimal digits. -/
def hexByte (n : Nat) : List Char := [Nat.digitChar (n / 16), Nat.digitChar (n % 16)]

/-- One character as it stands in a literal. -/
def quoteChar (c : Char) : List Char :=
  if c = '\\' then ['\\', '\\']
  else if c = '"' then ['\\', '"']
  else if c = '\n' then ['\\', 'n']
  else if c = '\r' then ['\\', 'r']
  else if c = '\t' then ['\\', 't']
  else if isControl c then '\\' :: 'x' :: hexByte c.toNat
  else [c]

/-- The body of the literal for a text. -/
def quoteBody (text : List Char) : List Char := text.flatMap quoteChar

/-- The literal for a text. -/
def quoteChars (text : List Char) : List Char := '"' :: (quoteBody text ++ ['"'])

/-- The double-quoted literal for a text, on one line. -/
def quote (text : String) : String := String.ofList (quoteChars text.toList)

@[simp] theorem quoteBody_nil : quoteBody [] = [] := rfl

@[simp] theorem quoteBody_cons (c : Char) (rest : List Char) :
    quoteBody (c :: rest) = quoteChar c ++ quoteBody rest := rfl

/-! ### Reading -/

/-- The character with a number, if there is one. -/
def character (value : Nat) : Except LiteralError Char :=
  if value.isValidChar then .ok (Char.ofNat value) else .error (.noCharacter value)

/-- The character that a hexadecimal escape denotes, given the text behind the escape letter. -/
def hexEscape (digits : Nat) (text : List Char) : Except LiteralError Char :=
  match Decimal.naturalFrom? 16 0 (text.take digits) with
  | some value =>
    if (text.take digits).length = digits then character value
    else .error (.truncatedEscape digits)
  | none => .error (.truncatedEscape digits)

/-- The number of hexadecimal digits that an escape letter calls for. -/
def hexEscapeDigits? (c : Char) : Option Nat :=
  if c = 'x' then some 2
  else if c = 'u' then some 4
  else if c = 'U' then some 8
  else none

/-- The character that a backslash and one more character denote. -/
def simpleEscape? (c : Char) : Option Char :=
  if c = '\\' ∨ c = '\x27' ∨ c = '"' then some c
  else if c = 'a' then some '\x07'
  else if c = 'b' then some '\x08'
  else if c = 'f' then some '\x0c'
  else if c = 'n' then some '\n'
  else if c = 'r' then some '\r'
  else if c = 't' then some '\t'
  else if c = 'v' then some '\x0b'
  else none

/-- The text that the body of a literal denotes. A backslash before a line break takes the line
break away; an escape that is not known stands for itself. -/
def cook : List Char → Except LiteralError (List Char)
  | [] => .ok []
  | '\\' :: '\n' :: rest => cook rest
  | '\\' :: '\r' :: '\n' :: rest => cook rest
  | '\\' :: '\r' :: rest => cook rest
  | ['\\'] => .error .trailingBackslash
  | '\\' :: c :: rest =>
    match simpleEscape? c with
    | some denoted => do return denoted :: (← cook rest)
    | none =>
      match hexEscapeDigits? c with
      | some digits => do
        let denoted ← hexEscape digits rest
        return denoted :: (← cook (rest.drop digits))
      | none =>
        if (Decimal.digit? 8 c).isSome then do
          let more := (rest.take 2).takeWhile fun d => (Decimal.digit? 8 d).isSome
          let denoted ← character ((Decimal.natural? 8 (c :: more)).getD 0)
          return denoted :: (← cook (rest.drop more.length))
        else do return '\\' :: c :: (← cook rest)
  | c :: rest => do return c :: (← cook rest)
termination_by text => text.length
decreasing_by all_goals simp only [List.length_drop, List.length_cons]; omega

/-- The letters of a literal and what stands behind them. -/
def splitLetters (token : List Char) : List Char × List Char :=
  token.span fun c => !(c == '"' || c == '\x27')

/-- The quotes that open a quoted text: three of them if it begins with three. -/
def delimiter (quoted : List Char) : List Char :=
  if quoted.take 3 = ['"', '"', '"'] ∨ quoted.take 3 = ['\x27', '\x27', '\x27'] then quoted.take 3
  else quoted.take 1

/-- A text without `close` at its end, if it ends so. -/
def dropEnd? (close text : List Char) : Option (List Char) :=
  if close.isSuffixOf text then some (text.take (text.length - close.length)) else none

/-- The text that a literal denotes. -/
def unquoteChars (token : List Char) : Except LiteralError (List Char) :=
  match splitLetters token with
  | (_, []) => .error (.noOpeningQuote (String.ofList token))
  | (letters, quoted) =>
    let delim := delimiter quoted
    match dropEnd? delim (quoted.drop delim.length) with
    | none => .error (.notClosed (String.ofList token) (String.ofList delim))
    | some body => if 'r' ∈ letters.map Char.toLower then .ok body else cook body

/-- The text that a literal denotes. -/
def unquote (token : String) : Except LiteralError String :=
  (unquoteChars token.toList).map String.ofList

/-! ### Plain text -/

/-- A character other than a backslash denotes itself. -/
theorem cook_cons_plain {c : Char} (h : c ≠ '\\') (rest : List Char) :
    cook (c :: rest) = (cook rest).map (c :: ·) := by
  rw [cook.eq_def]
  split <;> simp_all [Except.map, bind, Except.bind, pure, Except.pure]

/-- A text without backslashes denotes itself, whatever follows it. -/
theorem cook_append_plain {text : List Char} (h : '\\' ∉ text) (rest : List Char) :
    cook (text ++ rest) = (cook rest).map (text ++ ·) := by
  induction text with
  | nil => cases h : cook rest <;> simp [h, Except.map]
  | cons c text ih =>
    have hc : c ≠ '\\' := fun hc => h (by simp [hc])
    have ht : '\\' ∉ text := fun ht => h (List.mem_cons_of_mem _ ht)
    rw [List.cons_append, cook_cons_plain hc, ih ht]
    cases cook rest <;> rfl

end Quasiquote.Literal
