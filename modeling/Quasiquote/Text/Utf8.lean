/-!
# UTF-8

## Main Definitions

* `Utf8.encode` — the bytes of a text
* `Utf8.units` — the characters that bytes spell, and the places where they spell none
* `Utf8.decode?` — the text that bytes spell, if they spell one
* `Utf8.decodeLossy` — the same with a replacement character for what spells none

## Design Notes

Bytes that spell no character are cut into pieces that are as long as possible: a piece is a
beginning of some character's bytes that cannot be continued, or else a single byte.
-/

namespace Quasiquote.Utf8

/-- The bytes of a text. -/
def encode (text : List Char) : List UInt8 := text.flatMap String.utf8EncodeChar

/-- The bytes of a string. -/
def encodeString (s : String) : List UInt8 := encode s.toList

/-- The bytes that continue a character. -/
def continuation : Nat × Nat := (0x80, 0xbf)

/-- The ranges of the bytes that follow a leading byte, if it is one. The first range is narrower
where the shortest spelling, the surrogates or the last character demand it. -/
def followers? (lead : UInt8) : Option (List (Nat × Nat)) :=
  let b := lead.toNat
  if b < 0x80 then some []
  else if b < 0xc2 then none
  else if b < 0xe0 then some [continuation]
  else if b = 0xe0 then some [(0xa0, 0xbf), continuation]
  else if b = 0xed then some [(0x80, 0x9f), continuation]
  else if b < 0xf0 then some [continuation, continuation]
  else if b = 0xf0 then some [(0x90, 0xbf), continuation, continuation]
  else if b < 0xf4 then some [continuation, continuation, continuation]
  else if b = 0xf4 then some [(0x80, 0x8f), continuation, continuation]
  else none

/-- How many bytes at the beginning lie in the ranges, one after another. -/
def matching : List (Nat × Nat) → List UInt8 → Nat
  | (low, high) :: ranges, b :: bytes =>
    if low ≤ b.toNat ∧ b.toNat ≤ high then matching ranges bytes + 1 else 0
  | _, _ => 0

/-- The payload of a leading byte that is followed by some bytes. -/
def payload (lead : UInt8) (following : Nat) : Nat :=
  match following with
  | 0 => lead.toNat
  | 1 => lead.toNat % 32
  | 2 => lead.toNat % 16
  | _ => lead.toNat % 8

/-- The character with a leading byte and the bytes behind it. -/
def assemble (lead : UInt8) (following : List UInt8) : Char :=
  Char.ofNat (following.foldl (fun n b => n * 64 + b.toNat % 64) (payload lead following.length))

/-- The characters that bytes spell, in order, with `none` for each piece that spells none. -/
def units : List UInt8 → List (Option Char)
  | [] => []
  | lead :: rest =>
    match followers? lead with
    | none => none :: units rest
    | some ranges =>
      let count := matching ranges rest
      if count = ranges.length then
        some (assemble lead (rest.take count)) :: units (rest.drop count)
      else none :: units (rest.drop count)
termination_by bytes => bytes.length
decreasing_by all_goals simp only [List.length_drop, List.length_cons]; omega

/-- The text that bytes spell, if they spell one. -/
def decode? (bytes : List UInt8) : Option (List Char) := (units bytes).mapM id

/-- The string that bytes spell, if they spell one. -/
def decodeString? (bytes : List UInt8) : Option String := (decode? bytes).map String.ofList

/-- What stands for bytes that spell no character. -/
def replacement : Char := Char.ofNat 0xfffd

/-- The text that bytes spell, with replacements. -/
def decodeLossy (bytes : List UInt8) : List Char := (units bytes).map fun u => u.getD replacement

/-- The string that bytes spell, with replacements. -/
def decodeLossyString (bytes : List UInt8) : String := String.ofList (decodeLossy bytes)

@[simp] theorem units_nil : units [] = [] := by simp [units]

@[simp] theorem encode_nil : encode [] = [] := rfl

@[simp] theorem encode_append (a b : List Char) : encode (a ++ b) = encode a ++ encode b := by
  simp [encode]

end Quasiquote.Utf8
