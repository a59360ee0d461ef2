import Quasiquote.Source.ByteView
import Quasiquote.Text.Utf8

/-!
# Reading tokens from a buffer of bytes

The reader of host source once more, now as it works on the bytes of a buffer: it looks at single bytes,
knows places by their offsets only, and counts columns between offsets. Whatever can fault is checked.

## Main Definitions

* `ByteView.paddedSize`, `ByteView.charHere?` — the buffer behind a view, and looking into it
* `ByteView.numberEnd?`, `ByteView.literalBody?`, `ByteView.regionEnd` — the loops over bytes
* `ByteReader` — a reader: a view, and what it knows about lines
* `ByteReader.next?`, `ByteReader.takeIndentedBlock?`, `ByteReader.takeUntil?` — what it can be called for

## Design Notes

`none` is a fault: a byte looked at outside the buffer, a range that ends before it begins, a place behind
the end of the source, a block asked for in the middle of a line, a count less than zero. No source has
a reader fault, but that is a theorem and not part of these definitions.

The source stands in the buffer in front of zeros, and the loops stop at the first of these. They have
no other bound. A byte is looked at as the character of its number, so that bytes beyond ASCII are
characters beyond ASCII, though not those that the source holds.

Offsets, lines and columns are natural numbers here, and words of 32 bits in the program. They are the same for
sources of less than 2³² bytes. The program cuts the length of a longer source off at the greatest word; such
sources are out of scope.
-/

namespace Quasiquote

namespace ByteView

/-! ### Looking -/

/-- The number of bytes of the buffer that holds the source. It is filled up with zeros, of which there is
at least one, to a multiple of 64. -/
def paddedSize (v : ByteView) : Nat := (v.size + 64) / 64 * 64

/-- The byte at an offset, as the character of that number. It is zero anywhere behind the source. -/
def charAt (v : ByteView) (offset : Nat) : Char := .ofUInt8 (v.byteAt offset)

/-- The byte at the place of the view. Looking at it is a fault outside the buffer. -/
def charHere? (v : ByteView) : Option Char :=
  if v.pos < v.paddedSize then some (v.charAt v.pos) else none

/-- Whether this byte at the place of the view is the end of the source. -/
def endsHere (v : ByteView) (c : Char) : Bool := c == '\x00' && v.size ≤ v.pos

/-- The text between two offsets. It is a fault if the first one lies behind the second. -/
def slice? (v : ByteView) (start stop : Nat) : Option String :=
  if start ≤ stop then some (v.slice start stop) else none

/-- Whether a line break begins at an offset. -/
def isBreakAt (v : ByteView) (offset : Nat) : Bool :=
  v.charAt offset == '\n' || v.charAt offset == '\r' && v.charAt (offset + 1) == '\n'

/-! ### Moving -/

/-- The view at an offset. It is a fault if the offset lies behind the end. -/
def moveTo? (v : ByteView) (offset : Nat) : Option ByteView :=
  if offset ≤ v.size then some (v.moveTo offset) else none

/-- The view before the next line feed or carriage return, or at the end. -/
def advanceLine? (v : ByteView) : Option ByteView :=
  if v.pos ≤ v.size then some v.advanceLine else none

/-- The offset of the first occurrence of a text at or behind the place of the view, if there is one. -/
def find? (v : ByteView) (needle : String) : Option (Option Nat) :=
  if v.pos ≤ v.size then some (v.find needle) else none

/-- The view behind a carriage return, if there is one, and a line feed, if there is one. -/
def eatBreak? (v : ByteView) : Option ByteView := do
  let v := if (← v.charHere?) = '\r' then v.advance 1 else v
  return if (← v.charHere?) = '\n' then v.advance 1 else v

/-- The view behind a backslash and the line break or character that it takes with it. -/
def eatEscape? (v : ByteView) : Option ByteView := do
  let v := v.advance 1
  if v.isBreakAt v.pos then v.eatBreak?
  else
    let c ← v.charHere?
    return if v.endsHere c then v else v.advanceCharacter

@[simp] theorem advance_zero (v : ByteView) : v.advance 0 = v := rfl

@[simp] theorem advance_advance (v : ByteView) (a b : Nat) :
    (v.advance a).advance b = v.advance (a + b) := by
  simp [advance, Nat.add_assoc]

/-- What a loop that moves on in the buffer has left of it. -/
def left (v : ByteView) : Nat := v.paddedSize - v.pos

theorem left_advance_le (v : ByteView) (n : Nat) : (v.advance n).left ≤ v.left :=
  Nat.sub_le_sub_left (Nat.le_add_right v.pos n) v.paddedSize

theorem left_advance_lt {v : ByteView} {c : Char} (h : v.charHere? = some c) {n : Nat} (hn : 0 < n) :
    (v.advance n).left < v.left := by
  have hinside : v.pos < v.paddedSize := by
    unfold charHere? at h
    split at h
    · assumption
    · cases h
  exact Nat.sub_lt_sub_left hinside (Nat.lt_add_of_pos_right hn)

theorem eatBreak?_advances {v w : ByteView} (h : v.eatBreak? = some w) : ∃ n, w = v.advance n := by
  simp only [eatBreak?, Option.bind_eq_bind, Option.bind_eq_some_iff, Option.pure_def,
    Option.some.injEq] at h
  obtain ⟨c, -, d, -, rfl⟩ := h
  split <;> split
  · exact ⟨2, by rw [advance_advance]⟩
  · exact ⟨1, rfl⟩
  · exact ⟨1, rfl⟩
  · exact ⟨0, rfl⟩

theorem eatEscape?_advances {v w : ByteView} (h : v.eatEscape? = some w) :
    ∃ n, w = v.advance (n + 1) := by
  unfold eatEscape? at h
  dsimp only at h
  split at h
  · obtain ⟨n, rfl⟩ := eatBreak?_advances h
    exact ⟨n, by rw [advance_advance, Nat.add_comm]⟩
  · simp only [Option.bind_eq_bind, Option.bind_eq_some_iff, Option.pure_def, Option.some.injEq] at h
    obtain ⟨c, -, rfl⟩ := h
    split
    · exact ⟨0, rfl⟩
    · exact ⟨_, by rw [advanceCharacter, advance_advance, Nat.add_comm]⟩

/-! ### Loops over bytes -/

/-- The view behind the bytes of a class. A class that holds the zero byte leads out of the buffer. -/
def eatWhile? (p : Char → Bool) (v : ByteView) : Option ByteView :=
  match _h : v.charHere? with
  | none => none
  | some c => if p c then eatWhile? p (v.advance 1) else some v
termination_by v.left
decreasing_by exact left_advance_lt _h Nat.one_pos

theorem eatWhile?_advances {p : Char → Bool} {v w : ByteView} (h : eatWhile? p v = some w) :
    ∃ n, w = v.advance n := by
  fun_induction eatWhile? p v with
  | case1 => cases h
  | case2 v c hhere hc ih =>
    obtain ⟨n, rfl⟩ := ih h
    exact ⟨n + 1, by rw [advance_advance, Nat.add_comm]⟩
  | case3 =>
    cases h
    exact ⟨0, rfl⟩

/-- Whether the byte here is the exponent mark of a number that begins at `start` and has a sign behind
it. -/
def takesSign? (v : ByteView) (start : Nat) (c : Char) : Option Bool :=
  if (c == 'e' || c == 'E') && (v.charAt (v.pos + 1) == '+' || v.charAt (v.pos + 1) == '-') then
    (v.slice? start v.pos).map fun text => !Scan.isHexadecimal text.toList
  else some false

/-- The view behind the number that begins at `start`. -/
def numberEnd? (start : Nat) (v : ByteView) : Option ByteView :=
  match _h : v.charHere? with
  | none => none
  | some c =>
    match v.takesSign? start c with
    | none => none
    | some true => numberEnd? start (v.advance 2)
    | some false =>
      if c.isAlphanum || c == '_' || c == '.' then numberEnd? start (v.advance 1) else some v
termination_by v.left
decreasing_by
  · exact left_advance_lt _h Nat.two_pos
  · exact left_advance_lt _h Nat.one_pos

/-- The view behind the closing quotes of a literal whose body goes on at the place of the view. Without
closing quotes it is where the literal cannot go on. -/
def literalBody? (quote : Char) (triple : Bool) (v : ByteView) : Option (Bool × ByteView) :=
  match _h : v.charHere? with
  | none => none
  | some c =>
    if v.endsHere c then some (false, v)
    else if c = '\\' then
      match _hescape : v.eatEscape? with
      | none => none
      | some w => literalBody? quote triple w
    else if c = quote then
      if !triple then some (true, v.advance 1)
      else if v.charAt (v.pos + 1) = quote ∧ v.charAt (v.pos + 2) = quote then
        some (true, v.advance 3)
      else literalBody? quote triple (v.advance 1)
    else if Scan.endsLine c && !triple then some (false, v)
    else literalBody? quote triple v.advanceCharacter
termination_by v.left
decreasing_by
  · obtain ⟨n, rfl⟩ := eatEscape?_advances _hescape
    exact left_advance_lt _h (Nat.succ_pos n)
  · exact left_advance_lt _h Nat.one_pos
  · refine left_advance_lt _h ?_
    unfold characterWidth
    split <;> (try split) <;> (try split) <;> omega

/-- Behind the source there is no indentation. -/
theorem lt_size_of_isGap {v : ByteView} {offset : Nat} (h : Scan.isGap (v.charAt offset) = true) :
    offset < v.size := by
  refine Nat.lt_of_not_le fun hle => ?_
  have hzero : v.charAt offset = '\x00' := by
    rw [charAt, byteAt, List.getD_eq_getElem?_getD, List.getElem?_eq_none hle]
    rfl
  rw [hzero] at h
  exact absurd h (by decide)

/-- The width of the indentation from an offset on, in addition to `width`, and the byte behind it. -/
def measureIndent (v : ByteView) (width offset : Nat) : Nat × Char :=
  if _h : Scan.isGap (v.charAt offset) then
    measureIndent v (Scan.widen width (v.charAt offset)) (offset + 1)
  else (width, v.charAt offset)
termination_by v.size - offset
decreasing_by
  have := lt_size_of_isGap _h
  omega

theorem lt_lineEndFrom {v : ByteView} {offset : Nat} (h : offset < v.size) :
    offset < v.lineEndFrom offset := by
  unfold lineEndFrom
  dsimp only
  omega

/-- The width of the first line of a block, once it has been seen, and the offset behind the last line of
the block so far. The lines from `offset` on are still to be looked at. -/
def regionEnd (v : ByteView) (outer : Nat) (body : Option Nat) (stop offset : Nat) : Option Nat × Nat :=
  if _h : offset < v.size then
    let next := v.lineEndFrom offset
    let (width, first) := v.measureIndent 0 offset
    let blank := Scan.endsLine first || first == '\x00'
    let shallow := width ≤ outer || body.any (width < ·)
    if blank || first == '#' && shallow then regionEnd v outer body stop next
    else if width ≤ outer then (body, stop)
    else regionEnd v outer (some (body.getD width)) next next
  else (body, stop)
termination_by v.size - offset
decreasing_by
  all_goals
    have := lt_lineEndFrom _h
    omega

end ByteView

/-! ### Readers -/

/-- A reader of host source on a buffer of bytes. -/
structure ByteReader where
  view : ByteView
  /-- The number of the line that begins at `lineStart`, counted from 1. -/
  line : Nat
  lineStart : Nat
  /-- The widths of the open indentation levels, innermost first. The outermost is 0. -/
  indents : List Nat
  depth : Nat
  atLineStart : Bool
  lineHasContent : Bool
  pendingDedents : Nat
deriving DecidableEq, Repr

namespace ByteReader

/-- What a step of the reader gives: a token or an error, and the reader behind it. -/
abbrev Step := Except LexError Token × ByteReader

/-- A reader at the beginning of a source. -/
def ofSource (source : String) : ByteReader :=
  { view := .ofSource source, line := 1, lineStart := 0, indents := [0], depth := 0,
    atLineStart := true, lineHasContent := false, pendingDedents := 0 }

/-- The reader at the place of a view of its source. -/
def moved (r : ByteReader) (v : ByteView) : ByteReader := { r with view := v }

/-! ### Positions -/

/-- The position of an offset on the line of the reader. -/
def positionAt? (r : ByteReader) (offset : Nat) : Option Position := do
  let text ← r.view.slice? r.lineStart offset
  return ⟨offset, r.line, text.length⟩

/-- The position of the reader. -/
def here? (r : ByteReader) : Option Position := r.positionAt? r.view.pos

/-- The reader on the line that begins at its place. -/
def newLine (r : ByteReader) : ByteReader := { r with line := r.line + 1, lineStart := r.view.pos }

/-- The reader on the line that the last of some bytes belongs to. The bytes begin at an offset. -/
def countFeeds (r : ByteReader) (offset : Nat) : List UInt8 → ByteReader
  | [] => r
  | b :: rest =>
    if b = 0x0a then
      countFeeds { r with line := r.line + 1, lineStart := offset + 1 } (offset + 1) rest
    else r.countFeeds (offset + 1) rest

/-- The reader with the line feeds between two offsets counted. -/
def bumpLines? (r : ByteReader) (start stop : Nat) : Option ByteReader := do
  let text ← r.view.slice? start stop
  return r.countFeeds start text.toUTF8.data.toList

/-- The token between a position and the place of the reader. -/
def token? (r : ByteReader) (kind : Token.Kind) (start : Position) : Option Token := do
  let text ← r.view.slice? start.offset r.view.pos
  let stop ← r.here?
  let line ← r.view.slice? (r.view.lineStartOf start.offset) (r.view.lineEndFrom start.offset)
  return { kind, text, start, stop, line }

/-- The step that gives the token between a position and the place of the reader. -/
def emit? (r : ByteReader) (kind : Token.Kind) (start : Position) : Option Step := do
  return (.ok (← r.token? kind start), r)

/-- The same for a token that makes its line a logical one. -/
def content? (r : ByteReader) (kind : Token.Kind) (start : Position) : Option Step := do
  return (.ok (← r.token? kind start), { r with lineHasContent := true })

/-! ### Tokens -/

/-- The reader behind horizontal white space, carriage returns that break no line and joined lines, its
position, and the byte there. -/
def skipBlanks? (r : ByteReader) : Option (Position × Char × ByteReader) :=
  match _hgap : r.view.eatWhile? Scan.isGap with
  | none => none
  | some v =>
    match (r.moved v).here? with
    | none => none
    | some start =>
      match _h : v.charHere? with
      | none => none
      | some c =>
        if c = '\\' ∧ v.isBreakAt (v.pos + 1) then
          match _hbreak : (v.advance 1).eatBreak? with
          | none => none
          | some w => skipBlanks? (r.moved w).newLine
        else if c = '\r' ∧ v.charAt (v.pos + 1) ≠ '\n' then skipBlanks? (r.moved (v.advance 1))
        else some (start, c, r.moved v)
termination_by r.view.left
decreasing_by
  · obtain ⟨gap, rfl⟩ := ByteView.eatWhile?_advances _hgap
    obtain ⟨n, rfl⟩ := ByteView.eatBreak?_advances _hbreak
    rw [ByteView.advance_advance]
    exact Nat.lt_of_lt_of_le (ByteView.left_advance_lt _h (by omega)) (r.view.left_advance_le gap)
  · obtain ⟨gap, rfl⟩ := ByteView.eatWhile?_advances _hgap
    exact Nat.lt_of_lt_of_le (ByteView.left_advance_lt _h Nat.one_pos) (r.view.left_advance_le gap)

/-- A comment reaches to the end of its line. -/
def comment? (r : ByteReader) (start : Position) : Option Step := do
  let v ← r.view.advanceLine?
  (r.moved v).emit? .comment start

/-- A line break. Its token is made before the new line begins. -/
def lineBreak? (r : ByteReader) (start : Position) : Option Step := do
  let v ← r.view.eatBreak?
  let logical := r.depth == 0 && r.lineHasContent
  let r := { r.moved v with lineHasContent := r.lineHasContent && !logical }
  let token ← r.token? (if logical then .newline else .lineBreak) start
  return (.ok token, { r.newLine with atLineStart := true })

/-- The end of the source ends the logical line, then every open indentation level. -/
def endOfSource? (r : ByteReader) (start : Position) : Option Step :=
  if r.lineHasContent then ({ r with lineHasContent := false } : ByteReader).emit? .newline start
  else if r.indents.length > 1 then
    ({ r with indents := r.indents.drop 1 } : ByteReader).emit? .dedent start
  else r.emit? .endMarker start

/-- A number. -/
def number? (r : ByteReader) (start : Position) : Option Step := do
  let v ← r.view.numberEnd? r.view.pos
  (r.moved v).content? .number start

/-- A string literal whose opening quote is at the place of the reader. Only the line feeds of a literal
that is closed are counted. -/
def literal? (r : ByteReader) (start : Position) : Option Step := do
  let quote ← r.view.charHere?
  let triple := r.view.charAt (r.view.pos + 1) == quote && r.view.charAt (r.view.pos + 2) == quote
  let body := r.view.advance (if triple then 3 else 1)
  let (closed, v) ← body.literalBody? quote triple
  if closed then
    let r ← (r.moved v).bumpLines? body.pos v.pos
    r.content? .string start
  else return (.error (.unterminatedString start), r.moved v)

/-- An identifier, or a string literal whose letters it turns out to be. -/
def nameOrLiteral? (r : ByteReader) (start : Position) : Option Step := do
  let v ← r.view.eatWhile? Scan.isIdentPart
  let letters ← v.slice? start.offset v.pos
  let c ← v.charHere?
  if Scan.isQuote c && Scan.isLiteralPrefix letters.toList then (r.moved v).literal? start
  else (r.moved v).content? .name start

/-- An operator that begins with this byte. Without one, the error tells the character that does. -/
def operator? (r : ByteReader) (start : Position) (c : Char) : Option Step := do
  let ahead ← r.view.slice? start.offset (start.offset + 3)
  let length :=
    if Scan.operators3.any (·.isPrefixOf ahead.toList) then 3
    else if Scan.operators2.any (·.isPrefixOf ahead.toList) then 2
    else if Scan.operators1.contains c then 1
    else 0
  if length = 0 then
    let text ← r.view.slice? start.offset (start.offset + ByteView.characterWidth r.view.current)
    return (.error (.unexpectedCharacter start (text.toList.headD Utf8.replacement)), r)
  else
    let r := { r.moved (r.view.advance length) with depth := Scan.nest r.depth c }
    r.content? .operator start

/-- The next token of a line whose indentation has been dealt with. -/
def lineToken? (r : ByteReader) : Option Step := do
  let (start, c, r) ← r.skipBlanks?
  if r.view.endsHere c then r.endOfSource? start
  else if c = '#' then r.comment? start
  else if Scan.endsLine c then r.lineBreak? start
  else if c = '$' then (r.moved (r.view.advance 1)).content? .marker start
  else if c.isDigit || c == '.' && (r.view.charAt (r.view.pos + 1)).isDigit then r.number? start
  else if Scan.isQuote c then r.literal? start
  else if Scan.isIdentStart c then r.nameOrLiteral? start
  else r.operator? start c

/-- What the indentation of the line ahead amounts to: a token or an error, or nothing. -/
def indentation? (r : ByteReader) : Option (Option (Except LexError Token) × ByteReader) := do
  let start ← r.here?
  let (width, first) := r.view.measureIndent 0 r.view.pos
  if first == '#' || Scan.endsLine first || first == '\x00' then return (none, r)
  let v ← r.view.eatWhile? Scan.isGap
  let r := r.moved v
  let top := r.indents.headD 0
  if width > top then
    let r := { r with indents := width :: r.indents }
    return (some (.ok (← r.token? .indent start)), r)
  else if width < top then
    let kept := r.indents.dropWhile (width < ·)
    let popped := r.indents.length - kept.length
    let r := { r with indents := kept }
    let here ← r.here?
    if kept.headD 0 ≠ width then return (some (.error (.inconsistentDedent here)), r)
    -- the first of the levels is closed by this token
    if popped < 1 then none
    let r := { r with pendingDedents := popped - 1 }
    return (some (.ok (← r.token? .dedent here)), r)
  else return (none, r)

/-- The next token. -/
def next? (r : ByteReader) : Option Step :=
  if r.pendingDedents > 0 then do
    let r := { r with pendingDedents := r.pendingDedents - 1 }
    r.emit? .dedent (← r.here?)
  else if r.atLineStart then
    let r := { r with atLineStart := false }
    if r.depth = 0 then do
      match ← r.indentation? with
      | (some reply, r) => return (reply, r)
      | (none, r) => r.lineToken?
    else r.lineToken?
  else r.lineToken?

/-! ### Raw text -/

/-- The lines of the block that follows a header, if there is one, and the reader behind them. Asking
for it in the middle of a line is a fault. -/
def takeIndentedBlock? (r : ByteReader) : Option (Option RawText × ByteReader) := do
  if !r.atLineStart then none
  let first := r.view.pos
  let (body, last) := r.view.regionEnd (r.indents.headD 0) none first first
  if body.isNone then return (none, r)
  let start ← r.here?
  let text ← r.view.slice? first last
  let r ← (r.moved (← r.view.moveTo? last)).bumpLines? first last
  let r := { r with atLineStart := true, lineHasContent := false }
  return (some { text, start, stop := ← r.here? }, r)

/-- The text before the next `close`, if there is one, and the reader behind that. -/
def takeUntil? (r : ByteReader) (close : String) : Option (Option RawText × ByteReader) := do
  let first := r.view.pos
  match ← r.view.find? close with
  | none => return (none, r)
  | some last =>
    let start ← r.here?
    let text ← r.view.slice? first last
    let r ← r.bumpLines? first last
    let stop ← r.positionAt? last
    let bytes := close.toUTF8.data.toList
    let r ← (r.moved (← r.view.moveTo? (last + bytes.length))).bumpLines? last (last + bytes.length)
    return (some { text, start, stop },
      { r with
        depth := (bytes.map Char.ofUInt8).foldl Scan.nest r.depth
        lineHasContent := true })

end ByteReader

end Quasiquote
