/-!
# Positions in a source

A position is where a reader stands in a text: the number of bytes before it, its line and its
column.

## Main Definitions

* `Position` — offset in bytes, line from 1, column from 0 in characters
* `Position.across` — the position behind a stretch of text, counting its line breaks
* `Position.along` — the position behind a stretch of text taken as one line

## Design Notes

A position is never computed from a text and an offset; it is carried along while the text is read.
`across` is the ordinary way to carry it. `along` serves the two places where a line break belongs
to the line that it ends: the end of a line break token, and a string literal that never closes.
-/

namespace Quasiquote

/-- The number of bytes of a text in UTF-8. -/
def byteLength : List Char → Nat
  | [] => 0
  | c :: rest => c.utf8Size + byteLength rest

@[simp] theorem byteLength_nil : byteLength [] = 0 := rfl

@[simp] theorem byteLength_cons (c : Char) (rest : List Char) :
    byteLength (c :: rest) = c.utf8Size + byteLength rest := rfl

@[simp] theorem byteLength_append (a b : List Char) :
    byteLength (a ++ b) = byteLength a + byteLength b := by
  induction a with
  | nil => simp
  | cons c rest ih => simp [ih, Nat.add_assoc]

/-- A place in a source. -/
structure Position where
  /-- Bytes before the place. -/
  offset : Nat
  /-- Line, counted from 1. -/
  line : Nat
  /-- Characters before the place on its line. -/
  column : Nat
deriving DecidableEq, Repr, Inhabited

namespace Position

/-- The beginning of a source. -/
def origin : Position := ⟨0, 1, 0⟩

/-- The position behind one character. A line feed begins a new line. -/
def past (p : Position) (c : Char) : Position :=
  if c = '\n' then ⟨p.offset + c.utf8Size, p.line + 1, 0⟩
  else ⟨p.offset + c.utf8Size, p.line, p.column + 1⟩

/-- The position behind a stretch of text. -/
def across (p : Position) (text : List Char) : Position := text.foldl past p

/-- The position behind a stretch of text that counts as part of one line. -/
def along (p : Position) (text : List Char) : Position :=
  ⟨p.offset + byteLength text, p.line, p.column + text.length⟩

/-- Positions are written with both numbers counted from 1. -/
def render (p : Position) : String := toString p.line ++ ":" ++ toString (p.column + 1)

@[simp] theorem across_nil (p : Position) : p.across [] = p := rfl

@[simp] theorem across_cons (p : Position) (c : Char) (text : List Char) :
    p.across (c :: text) = (p.past c).across text := rfl

theorem across_append (p : Position) (a b : List Char) :
    p.across (a ++ b) = (p.across a).across b := by
  simp [across]

@[simp] theorem past_offset (p : Position) (c : Char) :
    (p.past c).offset = p.offset + c.utf8Size := by
  unfold past; split <;> rfl

/-- However the lines fall, the offset counts the bytes. -/
theorem across_offset (p : Position) (text : List Char) :
    (p.across text).offset = p.offset + byteLength text := by
  induction text generalizing p with
  | nil => rfl
  | cons c rest ih => simp [ih, Nat.add_assoc]

end Position

end Quasiquote
