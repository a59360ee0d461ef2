/-!
# Bytes in hexadecimal digits

## Main Definitions

* `hex` — two lowercase digits for each byte
-/

namespace Quasiquote.Text

/-- A lowercase hexadecimal digit. -/
def hexDigit (n : Nat) : Char := if n < 10 then Char.ofNat (48 + n) else Char.ofNat (87 + n)

/-- The two digits of a byte. -/
def hexByte (b : UInt8) : List Char := [hexDigit (b.toNat / 16), hexDigit (b.toNat % 16)]

/-- The digits of some bytes. -/
def hex (bytes : List UInt8) : String := String.ofList (bytes.flatMap hexByte)

end Quasiquote.Text
