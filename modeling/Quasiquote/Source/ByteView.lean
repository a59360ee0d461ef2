import Quasiquote.Source.Lexer

/-!
# Sources as bytes

A second view of a source, by its bytes, for tools that work with byte offsets: looking at single
bytes, cutting out text between two offsets, finding line ends and searching.

## Main Definitions

* `ByteView` — the bytes of a source without its byte order mark, and an offset in them
* `ByteView.slice` — the text between two offsets, empty if they cut a character
* `ByteView.lineStartOf`, `ByteView.lineEndFrom` — the line around an offset
* `ByteView.find` — the next occurrence of some bytes
-/

namespace Quasiquote

/-- The bytes of a source and a place in them. -/
structure ByteView where
  bytes : List UInt8
  /-- The bytes of the byte order mark that the source began with. -/
  markBytes : Nat
  pos : Nat
deriving DecidableEq, Repr

namespace ByteView

/-- The view of a source at its beginning. -/
def ofSource (source : String) : ByteView :=
  { bytes := (String.ofList (stripMark source.toList)).toUTF8.data.toList
    markBytes := markLength source.toList
    pos := 0 }

/-- The number of bytes of the source. -/
def size (v : ByteView) : Nat := v.bytes.length

/-- The byte at an offset, zero behind the end. -/
def byteAt (v : ByteView) (offset : Nat) : UInt8 := v.bytes.getD offset 0

/-- The byte at the place of the view. -/
def current (v : ByteView) : UInt8 := v.byteAt v.pos

/-- Whether the view is at the end. A zero byte inside the source is not its end. -/
def atEnd (v : ByteView) : Bool := v.current == 0 && v.size ≤ v.pos

/-- The text of some bytes, empty if they are not whole characters. -/
def text (bytes : List UInt8) : String := (String.fromUTF8? ⟨bytes.toArray⟩).getD ""

/-- The whole source as text. -/
def source (v : ByteView) : String := text v.bytes

/-- The text between two offsets, both of them moved back to the end if they lie behind it. -/
def slice (v : ByteView) (start stop : Nat) : String :=
  let stop := min stop v.size
  let start := min start stop
  text ((v.bytes.drop start).take (stop - start))

/-- The text between an offset and the place of the view. -/
def sliceFrom (v : ByteView) (start : Nat) : String := v.slice start v.pos

/-! ### Moving -/

/-- The view `n` bytes further on. -/
def advance (v : ByteView) (n : Nat) : ByteView := { v with pos := v.pos + n }

/-- The view at an offset, at most at the end. -/
def moveTo (v : ByteView) (offset : Nat) : ByteView := { v with pos := min offset v.size }

/-- The view behind the bytes that satisfy `p`. -/
def advanceWhile (v : ByteView) (p : UInt8 → Bool) : ByteView :=
  v.advance ((v.bytes.drop v.pos).takeWhile p).length

/-- The number of bytes of the character that begins with a byte. -/
def characterWidth (byte : UInt8) : Nat :=
  if 0xc0 ≤ byte ∧ byte ≤ 0xdf then 2
  else if 0xe0 ≤ byte ∧ byte ≤ 0xef then 3
  else if 0xf0 ≤ byte ∧ byte ≤ 0xf7 then 4
  else 1

/-- The view behind the character at its place. -/
def advanceCharacter (v : ByteView) : ByteView := v.advance (characterWidth v.current)

/-- The view behind spaces, tabs and form feeds. -/
def advanceGap (v : ByteView) : ByteView :=
  v.advanceWhile fun b => b == 0x20 || b == 0x09 || b == 0x0c

/-- The view before the next line feed or carriage return, or at the end. -/
def advanceLine (v : ByteView) : ByteView :=
  v.advanceWhile fun b => !(b == 0x0a || b == 0x0d)

/-- The view behind ASCII letters and digits. -/
def advanceAlphanumeric (v : ByteView) : ByteView :=
  v.advanceWhile fun b => b < 0x80 && (Char.ofNat b.toNat).isAlphanum

/-! ### Lines and searching -/

/-- The offset behind the line feed that ends the line of an offset. -/
def lineEndFrom (v : ByteView) (offset : Nat) : Nat :=
  let start := min offset v.size
  let line := (v.bytes.drop start).takeWhile (· ≠ 0x0a)
  min (start + line.length + 1) v.size

/-- The offset at which the line of an offset begins. -/
def lineStartOf (v : ByteView) (offset : Nat) : Nat :=
  let before := v.bytes.take (min offset v.size)
  before.length - (before.reverse.takeWhile (· ≠ 0x0a)).length

/-- The offset of `needle` in some bytes that begin at `offset`. -/
def findFrom (needle : List UInt8) (offset : Nat) : List UInt8 → Option Nat
  | [] => if needle.isEmpty then some offset else none
  | b :: rest =>
    if needle.isPrefixOf (b :: rest) then some offset else findFrom needle (offset + 1) rest

/-- The offset of the first occurrence of `needle` at or behind the place of the view. -/
def find (v : ByteView) (needle : String) : Option Nat :=
  findFrom needle.toUTF8.data.toList v.pos (v.bytes.drop v.pos)

end ByteView

end Quasiquote
