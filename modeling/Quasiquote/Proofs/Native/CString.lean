import Quasiquote.Native.CString
import Quasiquote.Proofs.Text.Utf8

/-!
# C string literals read back

A literal is printable, and C reads it as the bytes for which it was written, whatever stands behind it.

## Main Definitions

* `CString.IsPrintable` — the printable characters of ASCII

## Main Statements

* `CString.printable_quote` — a literal is printable, and so it stays on one line
* `CString.escape?_octal` — an octal escape of three digits is read as its byte
* `CString.read?_quote` — a literal is read as the bytes of its text

## Design Notes

Every byte is read in front of an arbitrary rest, as an octal escape goes on with the digits that it finds.
-/

namespace Quasiquote.CString

/-- The printable characters of ASCII. -/
def IsPrintable (c : Char) : Prop := 0x20 ≤ c.toNat ∧ c.toNat ≤ 0x7e

instance (c : Char) : Decidable (IsPrintable c) :=
  inferInstanceAs (Decidable (0x20 ≤ c.toNat ∧ c.toNat ≤ 0x7e))

theorem ne_feed_of_isPrintable {c : Char} (h : IsPrintable c) : c ≠ '\n' := by
  rintro rfl
  exact absurd h (by decide)

/-! ### Octal digits -/

/-- An octal digit has its value. -/
theorem octalValue?_octalDigit (n : Nat) : octalValue? (octalDigit n) = some (n % 8) := by
  have hlt : n % 8 < 8 := Nat.mod_lt n (by decide)
  unfold octalDigit
  generalize n % 8 = d at hlt
  revert d
  decide

theorem printable_octalDigit (n : Nat) : IsPrintable (octalDigit n) := by
  have hlt : n % 8 < 8 := Nat.mod_lt n (by decide)
  unfold octalDigit
  generalize n % 8 = d at hlt
  revert d
  decide

/-- The three digits of a byte are all that its escape takes, even if more digits follow. -/
theorem octalDigits_octal (b : UInt8) (rest : List Char) :
    octalDigits 3 (octal b ++ rest) =
      ([b.toNat / 64 % 8, b.toNat / 8 % 8, b.toNat % 8], rest) := by
  simp only [octal, List.cons_append, List.nil_append, octalDigits, octalValue?_octalDigit]

theorem octalNumber_octal (b : UInt8) :
    octalNumber [b.toNat / 64 % 8, b.toNat / 8 % 8, b.toNat % 8] = b.toNat := by
  have hlt := b.toNat_lt
  show ((0 * 8 + b.toNat / 64 % 8) * 8 + b.toNat / 8 % 8) * 8 + b.toNat % 8 = b.toNat
  omega

/-- **An octal escape of three digits is read as its byte.** -/
theorem escape?_octal (b : UInt8) (rest : List Char) : escape? (octal b ++ rest) = some (b, rest) := by
  have hlt : b.toNat < 256 := b.toNat_lt
  rw [escape?, octalDigits_octal]
  simp only [octalNumber_octal, if_pos hlt, UInt8.ofNat_toNat]

/-- A simple escape is read as the byte of the table. -/
theorem escape?_simple {c : Char} {b : UInt8} (hc : octalValue? c = none)
    (hb : List.lookup c simpleEscapes = some b) (rest : List Char) :
    escape? (c :: rest) = some (b, rest) := by
  have hdigits : octalDigits 3 (c :: rest) = ([], c :: rest) := by
    simp only [octalDigits, hc]
  rw [escape?, hdigits]
  simp only [hb, Option.map_some]

/-! ### Reading literals -/

theorem readInside?_quote (rest : List Char) : readInside? ('"' :: rest) = some ([], rest) := by
  rw [readInside?, if_pos rfl]

theorem readInside?_escape {text after : List Char} {b : UInt8} (h : escape? text = some (b, after)) :
    readInside? ('\\' :: text) = (readInside? after).map fun found => (b :: found.1, found.2) := by
  rw [readInside?, if_neg (by decide), if_neg (by decide), if_pos rfl, h]

theorem readInside?_char {c : Char} (hquote : c ≠ '"') (hfeed : c ≠ '\n') (hslash : c ≠ '\\')
    (rest : List Char) :
    readInside? (c :: rest) =
      (readInside? rest).map fun found => (String.utf8EncodeChar c ++ found.1, found.2) := by
  rw [readInside?, if_neg hquote, if_neg hfeed, if_neg hslash]

/-! ### Bytes inside literals -/

/-- How a byte is written. -/
theorem quoteByte_cases (b : UInt8) :
    (b = 0x5c ∧ quoteByte b = ['\\', '\\']) ∨ (b = 0x22 ∧ quoteByte b = ['\\', '"']) ∨
    (IsPrintable (Char.ofNat b.toNat) ∧ Char.ofNat b.toNat ≠ '"' ∧ Char.ofNat b.toNat ≠ '\\' ∧
      String.utf8EncodeChar (Char.ofNat b.toNat) = [b] ∧ quoteByte b = [Char.ofNat b.toNat]) ∨
    quoteByte b = '\\' :: octal b := by
  unfold quoteByte
  split
  · next hslash => exact .inl ⟨hslash, rfl⟩
  split
  · next hquote => exact .inr (.inl ⟨hquote, rfl⟩)
  split
  · next hslash hquote hprints =>
    have hlow : 0x20 ≤ b.toNat := UInt8.le_iff_toNat_le.1 hprints.1
    have hhigh : b.toNat ≤ 0x7e := UInt8.le_iff_toNat_le.1 hprints.2
    have hascii : Utf8.IsAscii (Char.ofUInt8 b) := Nat.lt_succ_of_le (Nat.le_succ_of_le hhigh)
    have hbyte : ∀ c : Char, Char.ofUInt8 b = c → b = UInt8.ofNat c.toNat := by
      rintro c rfl
      rw [Utf8.toNat_ofUInt8, UInt8.ofNat_toNat]
    rw [Utf8.ofNat_toNat]
    refine .inr (.inr (.inl ⟨⟨hlow, hhigh⟩, ?_, ?_, ?_, rfl⟩))
    · exact fun h => hquote (hbyte '"' h)
    · exact fun h => hslash (hbyte '\\' h)
    · rw [Utf8.encodeChar_ascii hascii, Utf8.toNat_ofUInt8, UInt8.ofNat_toNat]
  · exact .inr (.inr (.inr rfl))

theorem printable_quoteByte (b : UInt8) : ∀ c ∈ quoteByte b, IsPrintable c := by
  rcases quoteByte_cases b with ⟨-, h⟩ | ⟨-, h⟩ | ⟨hprints, -, -, -, h⟩ | h
  · rw [h]
    decide
  · rw [h]
    decide
  · rw [h]
    intro c hc
    rw [List.mem_singleton.1 hc]
    exact hprints
  · rw [h, octal]
    intro c hc
    simp only [List.mem_cons, List.not_mem_nil, or_false] at hc
    rcases hc with rfl | rfl | rfl | rfl
    · decide
    · exact printable_octalDigit _
    · exact printable_octalDigit _
    · exact printable_octalDigit _

/-- **One byte of a literal is read as that byte,** whatever stands behind it. -/
theorem readInside?_quoteByte (b : UInt8) (rest : List Char) :
    readInside? (quoteByte b ++ rest) =
      (readInside? rest).map fun found => (b :: found.1, found.2) := by
  rcases quoteByte_cases b with ⟨rfl, h⟩ | ⟨rfl, h⟩ | ⟨hprints, hquote, hslash, hbytes, h⟩ | h
  · rw [h]
    exact readInside?_escape (escape?_simple (by decide) (by decide) rest)
  · rw [h]
    exact readInside?_escape (escape?_simple (by decide) (by decide) rest)
  · rw [h, List.singleton_append, readInside?_char hquote (ne_feed_of_isPrintable hprints) hslash,
      hbytes]
    rfl
  · rw [h]
    exact readInside?_escape (escape?_octal b rest)

theorem readInside?_flatMap (bytes : List UInt8) (rest : List Char) :
    readInside? (bytes.flatMap quoteByte ++ '"' :: rest) = some (bytes, rest) := by
  induction bytes with
  | nil => exact readInside?_quote rest
  | cons b bytes ih =>
    rw [List.flatMap_cons, List.append_assoc, readInside?_quoteByte, ih]
    rfl

/-! ### Literals -/

/-- A literal is one between two quotes. -/
theorem toList_quote (text : String) :
    (quote text).toList = '"' :: ((Utf8.encodeString text).flatMap quoteByte ++ ['"']) :=
  String.toList_ofList

/-- **A literal is printable,** and so it stays on one line. -/
theorem printable_quote (text : String) : ∀ c ∈ (quote text).toList, IsPrintable c := by
  intro c hc
  rw [toList_quote, List.mem_cons, List.mem_append, List.mem_singleton, List.mem_flatMap] at hc
  rcases hc with rfl | ⟨b, -, hb⟩ | rfl
  · decide
  · exact printable_quoteByte b c hb
  · decide

/-- **A literal is read as the bytes of its text,** whatever stands behind it. -/
theorem read?_quote (text : String) (rest : List Char) :
    read? ((quote text).toList ++ rest) = some (Utf8.encodeString text, rest) := by
  rw [toList_quote, List.cons_append, List.append_assoc]
  exact readInside?_flatMap (Utf8.encodeString text) rest

/-- Digits behind an octal escape are characters of their own. -/
example : quote "\t7\\" = "\"\\0117\\\\\"" ∧
    read? (quote "\t7\\").toList = some ([0x09, 0x37, 0x5c], []) := by
  decide +kernel

end Quasiquote.CString
