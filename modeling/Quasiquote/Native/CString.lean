import Quasiquote.Text.Utf8

/-!
# C string literals

## Main Definitions

* `CString.quote` — the literal that denotes a text
* `CString.read?` — the bytes that the literal at the beginning of a text denotes

## Design Notes

All that does not print is written with three octal digits, so that a digit behind it is never taken
for a part of the escape.
-/

namespace Quasiquote.CString

/-- An octal digit. -/
def octalDigit (n : Nat) : Char := Char.ofNat (48 + n % 8)

/-- The three octal digits of a byte. -/
def octal (b : UInt8) : List Char :=
  [octalDigit (b.toNat / 64), octalDigit (b.toNat / 8), octalDigit b.toNat]

/-- One byte inside a literal. -/
def quoteByte (b : UInt8) : List Char :=
  if b = 0x5c then ['\\', '\\']
  else if b = 0x22 then ['\\', '"']
  else if 0x20 ≤ b ∧ b ≤ 0x7e then [Char.ofNat b.toNat]
  else '\\' :: octal b

/-- The literal for some bytes. -/
def quoteBytes (bytes : List UInt8) : List Char := '"' :: (bytes.flatMap quoteByte ++ ['"'])

/-- The literal for a text. -/
def quote (text : String) : String := String.ofList (quoteBytes (Utf8.encodeString text))

/-! ### Reading literals -/

/-- The value of an octal digit. -/
def octalValue? (c : Char) : Option Nat :=
  if '0' ≤ c ∧ c ≤ '7' then some (c.toNat - 48) else none

/-- The bytes that simple escapes denote, by the character behind the backslash. -/
def simpleEscapes : List (Char × UInt8) :=
  [('\\', 0x5c), ('"', 0x22), ('\x27', 0x27), ('?', 0x3f), ('a', 0x07), ('b', 0x08), ('f', 0x0c),
   ('n', 0x0a), ('r', 0x0d), ('t', 0x09), ('v', 0x0b)]

/-- The values of up to `count` octal digits at the beginning, and the rest. -/
def octalDigits : Nat → List Char → List Nat × List Char
  | 0, text => ([], text)
  | _, [] => ([], [])
  | count + 1, c :: rest =>
    match octalValue? c with
    | some d =>
      let (digits, rest) := octalDigits count rest
      (d :: digits, rest)
    | none => ([], c :: rest)

theorem length_octalDigits (count : Nat) (text : List Char) :
    (octalDigits count text).2.length ≤ text.length := by
  fun_induction octalDigits count text with
  | case1 text => exact Nat.le_refl _
  | case2 count => exact Nat.le_refl _
  | case3 count c rest d hd digits after hdigits ih =>
    rw [hdigits] at ih
    exact Nat.le_succ_of_le ih
  | case4 count c rest hd => exact Nat.le_refl _

/-- The number that octal digits spell. -/
def octalNumber (digits : List Nat) : Nat := digits.foldl (fun n d => n * 8 + d) 0

/-- The byte that the escape sequence behind a backslash denotes, and the text behind it. An octal escape
has one to three digits, as many as there are, and denotes a byte. -/
def escape? (text : List Char) : Option (UInt8 × List Char) :=
  match octalDigits 3 text with
  | ([], []) => none
  | ([], c :: rest) => (List.lookup c simpleEscapes).map fun b => (b, rest)
  | (digits, rest) =>
    if octalNumber digits < 256 then some (UInt8.ofNat (octalNumber digits), rest) else none

theorem length_escape? {text rest : List Char} {b : UInt8} (h : escape? text = some (b, rest)) :
    rest.length ≤ text.length := by
  have hdigits := length_octalDigits 3 text
  unfold escape? at h
  split at h
  · cases h
  · next c after heq =>
    obtain ⟨b', -, hb⟩ := Option.map_eq_some_iff.1 h
    cases hb
    rw [heq] at hdigits
    exact Nat.le_of_succ_le hdigits
  · next heq =>
    split at h
    · cases h
      rw [heq] at hdigits
      exact hdigits
    · cases h

/-- What the rest of a literal denotes, up to its closing quote, and the text behind that. A line break
ends no literal. -/
def readInside? : List Char → Option (List UInt8 × List Char)
  | [] => none
  | c :: rest =>
    if c = '"' then some ([], rest)
    else if c = '\n' then none
    else if c = '\\' then
      match _h : escape? rest with
      | none => none
      | some (b, after) => (readInside? after).map fun found => (b :: found.1, found.2)
    else (readInside? rest).map fun found => (String.utf8EncodeChar c ++ found.1, found.2)
termination_by text => text.length
decreasing_by
  · exact Nat.lt_succ_of_le (length_escape? _h)
  · exact Nat.lt_succ_self _

/-- The bytes that the literal at the beginning of a text denotes, and the text behind it. -/
def read? : List Char → Option (List UInt8 × List Char)
  | '"' :: rest => readInside? rest
  | _ => none

end Quasiquote.CString
