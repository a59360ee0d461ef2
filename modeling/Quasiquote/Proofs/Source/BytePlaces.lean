import Quasiquote.Proofs.Source.ByteScan
import Quasiquote.Proofs.Source.LongestOperator

/-!
# Places of a reader on bytes

A reader on bytes at the place of a reader of characters has the same position, cuts the same tokens, and
moves to the same places.

## Main Definitions

* `Lexer.Anchored` — a reader whose offset and column count the text behind it
* `Lexer.onBytes` — the same reader on bytes

## Main Statements

* `ByteReader.here?_onBytes`, `ByteReader.token?_onBytes` — positions and tokens
* `ByteReader.bumpLines?_moved` — counting line feeds
* `ByteReader.moved_along`, `ByteReader.newLine_onBytes` — moving

## Design Notes

The reader of characters carries its column along, the reader on bytes counts the characters since the
beginning of its line. So a reader on bytes keeps that beginning where the other one moves `along`, and
moves it behind a line feed where the other one moves `across`.
-/

namespace Quasiquote

open Utf8 (encode IsAscii Uniform)
open ByteView (between front)

namespace Lexer

/-- **A reader whose position counts the text behind it.** Its line need not be the one that it is on. -/
structure Anchored (lx : Lexer) : Prop where
  offset : lx.here.offset = byteLength lx.behind
  /-- The line that the column is counted on begins in the text behind. -/
  column : lx.here.column ≤ lx.behind.length

/-- The offset at which the line of a position begins. The position stands behind `behind`. -/
def startOfLine (behind : List Char) (p : Position) : Nat := byteLength (behind.drop p.column)

/-- The same reader on bytes. The source had a byte order mark of `mark` bytes. -/
def onBytes (mark : Nat) (lx : Lexer) : ByteReader :=
  { view := .between mark lx.behind.reverse lx.ahead
    line := lx.here.line
    lineStart := startOfLine lx.behind lx.here
    indents := lx.indents
    depth := lx.depth
    atLineStart := lx.atLineStart
    lineHasContent := lx.lineHasContent
    pendingDedents := lx.pendingDedents }

variable {mark : Nat} {lx rest : Lexer}

/-! ### Places -/

theorem anchored_ofChars (text : List Char) : (ofChars text).Anchored := ⟨rfl, Nat.le_refl 0⟩

theorem column_across_le (p : Position) (text : List Char) :
    (p.across text).column ≤ p.column + text.length := by
  induction text generalizing p with
  | nil => exact Nat.le_refl _
  | cons c text ih =>
    have hpast : (p.past c).column ≤ p.column + 1 := by
      unfold Position.past
      split
      · exact Nat.zero_le _
      · exact Nat.le_refl _
    have hrest := ih (p.past c)
    rw [Position.across_cons, List.length_cons]
    omega

theorem Anchored.moves {text : List Char} (h : lx.Anchored) (hmoves : lx.Moves text rest) : rest.Anchored where
  offset := by
    rw [hmoves.here, Position.across_offset, hmoves.behind, byteLength_append, byteLength_reverse, h.offset,
      Nat.add_comm]
  column := by
    have hcolumn := column_across_le lx.here text
    have hbehind := h.column
    rw [hmoves.here, hmoves.behind, List.length_append, List.length_reverse]
    omega

theorem Anchored.advance (h : lx.Anchored) (n : Nat) : (lx.advance n).Anchored := h.moves (lx.moves_advance n)

theorem Anchored.advanceAlong (h : lx.Anchored) (n : Nat) : (lx.advanceAlong n).Anchored where
  offset := by
    show lx.here.offset + byteLength (lx.ahead.take n) = byteLength ((lx.ahead.take n).reverse ++ lx.behind)
    rw [byteLength_append, byteLength_reverse, h.offset, Nat.add_comm]
  column := by
    have hbehind := h.column
    show lx.here.column + (lx.ahead.take n).length ≤ ((lx.ahead.take n).reverse ++ lx.behind).length
    rw [List.length_append, List.length_reverse]
    omega

theorem advance_advance (lx : Lexer) (m n : Nat) : (lx.advance m).advance n = lx.advance (m + n) := by
  simp only [Lexer.advance, List.take_add, List.drop_drop, List.reverse_append, List.append_assoc,
    Position.across_append]

theorem advanceAlong_advanceAlong (lx : Lexer) (m n : Nat) :
    (lx.advanceAlong m).advanceAlong n = lx.advanceAlong (m + n) := by
  simp only [Lexer.advanceAlong, Position.along, List.take_add, List.drop_drop, List.reverse_append,
    List.append_assoc, byteLength_append, List.length_append, Nat.add_assoc]

theorem advance_eq_advanceAlong {n : Nat} (h : '\n' ∉ lx.ahead.take n) : lx.advance n = lx.advanceAlong n := by
  rw [Lexer.advance, Lexer.advanceAlong, Position.across_eq_along _ h]

end Lexer

namespace ByteReader

variable {mark : Nat} {lx rest : Lexer}

open Lexer (onBytes startOfLine Anchored)

theorem ofSource_eq (source : String) :
    ofSource source = onBytes (markLength source.toList) (Lexer.ofSource source) := by
  rw [ofSource, ByteView.ofSource_eq]
  rfl

/-! ### Positions -/

theorem here?_onBytes (h : lx.Anchored) : (onBytes mark lx).here? = some lx.here := by
  have hsplit : (onBytes mark lx).view.bytes =
      encode ((lx.behind.drop lx.here.column).reverse ++
        ((lx.behind.take lx.here.column).reverse ++ lx.ahead)) := by
    rw [← List.append_assoc, ← List.reverse_append, List.take_append_drop]
    rfl
  have hpos : (onBytes mark lx).view.pos =
      byteLength (lx.behind.drop lx.here.column).reverse +
        byteLength (lx.behind.take lx.here.column).reverse := by
    rw [← byteLength_append, ← List.reverse_append, List.take_append_drop]
    rfl
  have hstart : (onBytes mark lx).lineStart = byteLength (lx.behind.drop lx.here.column).reverse :=
    (byteLength_reverse _).symm
  have hoffset : (onBytes mark lx).view.pos = lx.here.offset :=
    (byteLength_reverse lx.behind).trans h.offset.symm
  have hlength : (String.ofList (lx.behind.take lx.here.column).reverse).length = lx.here.column := by
    rw [String.length_ofList, List.length_reverse, List.length_take, Nat.min_eq_left h.column]
  rw [here?, positionAt?, hstart, hpos, ByteView.slice?_split hsplit, ← hpos, hoffset]
  show some (Position.mk _ _ (String.ofList _).length) = _
  rw [hlength]
  rfl

/-- The physical line around a reader is found from any place of its text. -/
theorem slice?_physicalLine {v : ByteView} (h : v.bytes = encode lx.source) :
    v.slice? (v.lineStartOf (byteLength lx.behind)) (v.lineEndFrom (byteLength lx.behind)) =
      some (String.ofList lx.physicalLine) := by
  have hreverse : v.bytes = encode (lx.behind.reverse ++ lx.ahead) := h
  obtain ⟨after, hafter⟩ := Text.firstLine_prefix lx.ahead
  have hstart := ByteView.lineStartOf_split hreverse
  have hstop := ByteView.lineEndFrom_split hreverse
  rw [byteLength_reverse] at hstop
  have hsplit : v.bytes = encode ((lx.behind.dropWhile (· ≠ '\n')).reverse ++
      (lx.physicalLine ++ after)) := by
    rw [hreverse, Lexer.physicalLine, List.append_assoc, hafter, ← List.append_assoc, ← List.reverse_append,
      List.takeWhile_append_dropWhile]
  have hlength : byteLength lx.behind + byteLength (Text.firstLine lx.ahead) =
      byteLength (lx.behind.dropWhile (· ≠ '\n')).reverse + byteLength lx.physicalLine := by
    have hbehind : byteLength lx.behind = byteLength (lx.behind.dropWhile (· ≠ '\n')).reverse +
        byteLength (lx.behind.takeWhile (· ≠ '\n')).reverse := by
      rw [← byteLength_append, ← List.reverse_append, List.takeWhile_append_dropWhile, byteLength_reverse]
    rw [Lexer.physicalLine, byteLength_append, hbehind, Nat.add_assoc]
  rw [hstart, hstop, hlength, ← byteLength_reverse (lx.behind.dropWhile (· ≠ '\n')),
    ByteView.slice?_split hsplit]

/-- **The token between two places.** -/
theorem token?_onBytes (h : lx.Anchored) (hrest : rest.Anchored) {text : List Char}
    (hbehind : rest.behind = text.reverse ++ lx.behind) (hahead : lx.ahead = text ++ rest.ahead)
    (kind : Token.Kind) :
    (onBytes mark rest).token? kind lx.here = some
      { kind, text := String.ofList text, start := lx.here, stop := rest.here
        line := String.ofList lx.physicalLine } := by
  have hbytes : (onBytes mark rest).view.bytes = encode lx.source := by
    show encode (rest.behind.reverse ++ rest.ahead) = encode (lx.behind.reverse ++ lx.ahead)
    rw [hbehind, hahead, List.reverse_append, List.reverse_reverse, List.append_assoc]
  have hsplit : (onBytes mark rest).view.bytes = encode (lx.behind.reverse ++ (text ++ rest.ahead)) := by
    rw [hbytes, Lexer.source, hahead]
  have hpos : (onBytes mark rest).view.pos = byteLength lx.behind.reverse + byteLength text := by
    show byteLength rest.behind.reverse = _
    rw [hbehind, List.reverse_append, List.reverse_reverse, byteLength_append]
  have htext : (onBytes mark rest).view.slice? lx.here.offset (onBytes mark rest).view.pos =
      some (String.ofList text) := by
    rw [h.offset, ← byteLength_reverse, hpos]
    exact ByteView.slice?_split hsplit
  have hline := slice?_physicalLine hbytes
  rw [← h.offset] at hline
  rw [token?, htext, here?_onBytes hrest, hline]
  rfl

/-- The step of a reader of characters as one on bytes. -/
def stepOnBytes (mark : Nat) (step : Lexer.Step) : Step := (step.1, onBytes mark step.2)

theorem token?_advance (h : lx.Anchored) (kind : Token.Kind) (n : Nat) :
    (onBytes mark (lx.advance n)).token? kind lx.here = some (lx.token kind n) :=
  token?_onBytes h (h.advance n) rfl (List.take_append_drop n lx.ahead).symm kind

theorem token?_advanceAlong (mark : Nat) (h : lx.Anchored) (kind : Token.Kind) (n : Nat) :
    (onBytes mark (lx.advanceAlong n)).token? kind lx.here =
      some { lx.token kind n with stop := lx.here.along (lx.ahead.take n) } :=
  token?_onBytes h (h.advanceAlong n) rfl (List.take_append_drop n lx.ahead).symm kind

theorem token?_here (h : lx.Anchored) (kind : Token.Kind) :
    (onBytes mark lx).token? kind lx.here = some (lx.token kind 0) := by
  have htoken : (onBytes mark (lx.advance 0)).token? kind lx.here = _ := token?_advance h kind 0
  rwa [Lexer.advance_zero] at htoken

theorem content?_advance (h : lx.Anchored) (kind : Token.Kind) (n : Nat) :
    (onBytes mark (lx.advance n)).content? kind lx.here = some (stepOnBytes mark (lx.content kind n)) := by
  rw [content?, token?_advance h]
  rfl

/-- A token without a line feed: the reader has moved along its line. -/
theorem content?_moved (h : lx.Anchored) (kind : Token.Kind) {n : Nat} (hfeed : '\n' ∉ lx.ahead.take n) :
    (onBytes mark (lx.advanceAlong n)).content? kind lx.here = some (stepOnBytes mark (lx.content kind n)) := by
  rw [← Lexer.advance_eq_advanceAlong hfeed]
  exact content?_advance h kind n

/-! ### Lines -/

theorem countFeeds_append (r : ByteReader) (offset : Nat) (a b : List UInt8) :
    r.countFeeds offset (a ++ b) = (r.countFeeds offset a).countFeeds (offset + a.length) b := by
  induction a generalizing r offset with
  | nil => rfl
  | cons x a ih =>
    have hoffset : offset + (x :: a).length = offset + 1 + a.length := by
      rw [List.length_cons]
      omega
    rw [List.cons_append, countFeeds, countFeeds, hoffset]
    split
    · exact ih _ _
    · exact ih _ _

theorem countFeeds_of_notMem (r : ByteReader) (offset : Nat) {bytes : List UInt8} (h : 0x0a ∉ bytes) :
    r.countFeeds offset bytes = r := by
  induction bytes generalizing offset with
  | nil => rfl
  | cons b bytes ih =>
    rw [List.mem_cons, not_or] at h
    rw [countFeeds, if_neg (Ne.symm h.1), ih _ h.2]

/-- No character but the line feed has its byte. -/
theorem feed_notMem_encodeChar {c : Char} (hc : c ≠ '\n') : 0x0a ∉ String.utf8EncodeChar c := by
  intro hfeed
  have hsame := ByteView.uniform_feed.byte hfeed
  rw [decide_eq_true hc] at hsame
  exact absurd hsame (by decide)

/-- **Counting line feeds leads to the line that the text behind ends on.** -/
theorem countFeeds_encode (text behind : List Char) (p : Position) (r : ByteReader) (hline : r.line = p.line)
    (hstart : r.lineStart = startOfLine behind p) :
    r.countFeeds (byteLength behind) (encode text) =
      { r with
        line := (p.across text).line
        lineStart := startOfLine (text.reverse ++ behind) (p.across text) } := by
  induction text generalizing behind p r with
  | nil =>
    cases r
    cases hline
    cases hstart
    rfl
  | cons c rest ih =>
    have hoffset : byteLength behind + (String.utf8EncodeChar c).length = byteLength (c :: behind) := by
      rw [String.length_utf8EncodeChar, byteLength_cons, Nat.add_comm]
    rw [Utf8.encode_char, countFeeds_append, hoffset, Position.across_cons, List.reverse_cons, List.append_assoc]
    by_cases hc : c = '\n'
    · subst hc
      exact ih ('\n' :: behind) (p.past '\n') { r with line := r.line + 1, lineStart := byteLength behind + 1 }
        (congrArg (· + 1) hline) (Nat.add_comm _ _)
    · have hpast : p.past c = ⟨p.offset + c.utf8Size, p.line, p.column + 1⟩ := if_neg hc
      rw [countFeeds_of_notMem _ _ (feed_notMem_encodeChar hc)]
      exact ih (c :: behind) (p.past c) r (by rw [hline, hpast]) (by rw [hstart, hpast]; rfl)

theorem bumpLines?_moved {v : ByteView} (hv : v.bytes = encode lx.source) (n : Nat) :
    ((onBytes mark lx).moved v).bumpLines? (byteLength lx.behind)
        (byteLength lx.behind + byteLength (lx.ahead.take n)) =
      some ((onBytes mark (lx.advance n)).moved v) := by
  have hsplit : v.bytes = encode (lx.behind.reverse ++ (lx.ahead.take n ++ lx.ahead.drop n)) := by
    rw [hv, List.take_append_drop]
    rfl
  have hslice := ByteView.slice?_split hsplit
  rw [byteLength_reverse] at hslice
  have hfeeds := countFeeds_encode (lx.ahead.take n) lx.behind lx.here ((onBytes mark lx).moved v) rfl rfl
  rw [bumpLines?]
  show ((v.slice? _ _).bind _) = _
  rw [hslice, Option.bind_some, toUTF8_ofList]
  exact congrArg some hfeeds

/-! ### Moving -/

@[simp] theorem moved_moved (r : ByteReader) (v w : ByteView) : (r.moved v).moved w = r.moved w := rfl

@[simp] theorem moved_view (r : ByteReader) : r.moved r.view = r := rfl

/-- The view of a reader behind the next `n` characters. -/
theorem view_advance (mark : Nat) (lx : Lexer) (n : Nat) :
    (onBytes mark (lx.advance n)).view =
      between mark (lx.behind.reverse ++ lx.ahead.take n) (lx.ahead.drop n) := by
  show between mark ((lx.ahead.take n).reverse ++ lx.behind).reverse (lx.ahead.drop n) = _
  rw [List.reverse_append, List.reverse_reverse]

@[simp] theorem pos_onBytes (mark : Nat) (lx : Lexer) : (onBytes mark lx).view.pos = byteLength lx.behind :=
  byteLength_reverse lx.behind

theorem bytes_onBytes (mark : Nat) (lx : Lexer) : (onBytes mark lx).view.bytes = encode lx.source := rfl

theorem size_onBytes (mark : Nat) (lx : Lexer) :
    (onBytes mark lx).view.size = byteLength lx.behind + byteLength lx.ahead := by
  rw [← byteLength_reverse]
  exact ByteView.size_between

theorem pos_advance (mark : Nat) (lx : Lexer) (n : Nat) :
    (onBytes mark (lx.advance n)).view.pos = byteLength lx.behind + byteLength (lx.ahead.take n) := by
  rw [view_advance]
  show byteLength (lx.behind.reverse ++ lx.ahead.take n) = _
  rw [byteLength_append, byteLength_reverse]

/-- Counting the line feeds of the text that the reader has moved over. -/
theorem bumpLines?_advance (mark : Nat) (lx : Lexer) (n : Nat) :
    ((onBytes mark lx).moved (onBytes mark (lx.advance n)).view).bumpLines? (onBytes mark lx).view.pos
        (onBytes mark (lx.advance n)).view.pos = some (onBytes mark (lx.advance n)) := by
  have hbytes : (onBytes mark (lx.advance n)).view.bytes = encode lx.source := by
    rw [bytes_onBytes, Lexer.source_advance]
  rw [pos_onBytes, pos_advance, bumpLines?_moved hbytes]
  rfl

/-- Moving along a line keeps its beginning. -/
theorem moved_along (mark : Nat) (lx : Lexer) (n : Nat) :
    (onBytes mark lx).moved (onBytes mark (lx.advance n)).view = onBytes mark (lx.advanceAlong n) := by
  have hstart : startOfLine (lx.advanceAlong n).behind (lx.advanceAlong n).here =
      startOfLine lx.behind lx.here := by
    show byteLength
        (((lx.ahead.take n).reverse ++ lx.behind).drop (lx.here.column + (lx.ahead.take n).length)) =
      byteLength (lx.behind.drop lx.here.column)
    rw [Nat.add_comm, ← List.length_reverse, List.drop_length_add_append]
  conv_rhs => rw [onBytes, hstart]
  rfl

/-- Behind a line feed a new line begins. -/
theorem newLine_onBytes (mark : Nat) (lx : Lexer) {n : Nat} {s : List Char} (hs : '\n' ∉ s)
    (htake : lx.ahead.take n = s ++ ['\n']) :
    (onBytes mark (lx.advanceAlong n)).newLine = onBytes mark (lx.advance n) := by
  have hline : (lx.here.across (s ++ ['\n'])).line = lx.here.line + 1 := by
    rw [Position.across_line, List.count_append, List.count_eq_zero_of_not_mem hs, Nat.zero_add]
    rfl
  have hcolumn : (lx.here.across (s ++ ['\n'])).column = 0 := by
    rw [Position.across_append]
    rfl
  have hstart : startOfLine (lx.advance n).behind (lx.advance n).here =
      (onBytes mark (lx.advanceAlong n)).view.pos := by
    show byteLength (List.drop (lx.here.across (lx.ahead.take n)).column _) =
      byteLength (lx.advance n).behind.reverse
    rw [htake, hcolumn, List.drop_zero, byteLength_reverse]
  have hnumber : (lx.advance n).here.line = lx.here.line + 1 := by
    show (lx.here.across (lx.ahead.take n)).line = _
    rw [htake, hline]
  rw [newLine, ← hstart]
  conv_rhs => rw [onBytes, hnumber]
  rfl

/-- The view behind the characters of a class. -/
theorem view_advance_while (mark : Nat) (lx : Lexer) (p : Char → Bool) :
    (onBytes mark (lx.advance (lx.ahead.takeWhile p).length)).view =
      between mark (lx.behind.reverse ++ lx.ahead.takeWhile p) (lx.ahead.dropWhile p) := by
  rw [view_advance, take_length_takeWhile, drop_length_takeWhile]

/-- Moving to a place behind some characters. -/
theorem moveTo?_advance (n : Nat) :
    (onBytes mark lx).view.moveTo? (onBytes mark (lx.advance n)).view.pos =
      some (onBytes mark (lx.advance n)).view := by
  have hall : byteLength lx.ahead = byteLength (lx.ahead.take n) + byteLength (lx.ahead.drop n) := by
    rw [← byteLength_append, List.take_append_drop]
  have hinside : (onBytes mark (lx.advance n)).view.pos ≤ (onBytes mark lx).view.size := by
    rw [pos_advance, size_onBytes, hall]
    omega
  have hbytes : (onBytes mark (lx.advance n)).view.bytes = (onBytes mark lx).view.bytes := by
    rw [bytes_onBytes, bytes_onBytes, Lexer.source_advance]
  rw [ByteView.moveTo?, if_pos hinside, ByteView.moveTo, Nat.min_eq_left hinside, ← hbytes]
  rfl

/-- Positions do not depend on the place of the view. -/
theorem positionAt?_moved {r : ByteReader} {v : ByteView} (h : v.bytes = r.view.bytes) (offset : Nat) :
    (r.moved v).positionAt? offset = r.positionAt? offset := by
  have hslice : v.slice? r.lineStart offset = r.view.slice? r.lineStart offset := by
    simp only [ByteView.slice?, ByteView.slice, ByteView.size, h]
  rw [positionAt?, positionAt?, ← hslice]
  rfl

/-! ### Looking -/

/-- The text that the reader moves over, cut from a view of its source. -/
theorem slice?_between {v : ByteView} (hv : v.bytes = encode lx.source) (n : Nat) :
    v.slice? (onBytes mark lx).view.pos (onBytes mark (lx.advance n)).view.pos =
      some (String.ofList (lx.ahead.take n)) := by
  have hsplit : v.bytes = encode (lx.behind.reverse ++ (lx.ahead.take n ++ lx.ahead.drop n)) := by
    rw [hv, List.take_append_drop]
    rfl
  rw [pos_onBytes, pos_advance, ← byteLength_reverse]
  exact ByteView.slice?_split hsplit

theorem pos_eq_offset (mark : Nat) (h : lx.Anchored) : (onBytes mark lx).view.pos = lx.here.offset :=
  (pos_onBytes mark lx).trans h.offset.symm

theorem slice?_advance (h : lx.Anchored) (n : Nat) :
    (onBytes mark (lx.advance n)).view.slice? lx.here.offset (onBytes mark (lx.advance n)).view.pos =
      some (String.ofList (lx.ahead.take n)) := by
  rw [← pos_eq_offset mark h]
  exact slice?_between (by rw [bytes_onBytes, Lexer.source_advance]) n

theorem charHere?_onBytes (mark : Nat) (lx : Lexer) :
    (onBytes mark lx).view.charHere? = some (front lx.ahead) :=
  ByteView.charHere?_between

/-- A line break behind an ASCII character. -/
theorem isBreakAt_next {mid : Lexer} {c : Char} {rest : List Char} (hahead : mid.ahead = c :: rest)
    (hc : IsAscii c) :
    (onBytes mark mid).view.isBreakAt ((onBytes mark mid).view.pos + 1) = true ↔ 0 < Scan.breakLength rest := by
  have hbytes : (onBytes mark mid).view.bytes = encode ((mid.behind.reverse ++ [c]) ++ rest) := by
    rw [List.append_assoc, List.singleton_append, ← hahead]
    rfl
  have hpos : (onBytes mark mid).view.pos + 1 = byteLength (mid.behind.reverse ++ [c]) := by
    rw [byteLength_append, byteLength_cons, byteLength_nil, Utf8.utf8Size_ascii hc, pos_onBytes,
      byteLength_reverse]
  rw [hpos, ByteView.isBreakAt_split hbytes]

/-- The byte behind an ASCII character. -/
theorem charAt_next (mark : Nat) {mid : Lexer} {c : Char} {rest : List Char} (hahead : mid.ahead = c :: rest)
    (hc : IsAscii c) :
    (onBytes mark mid).view.charAt ((onBytes mark mid).view.pos + 1) = front rest := by
  show (between mark mid.behind.reverse mid.ahead).charAt _ = _
  rw [hahead]
  exact ByteView.charAt_next hc

theorem advance_view_one {mid : Lexer} {c : Char} {rest : List Char} (hahead : mid.ahead = c :: rest)
    (hc : IsAscii c) :
    (onBytes mark mid).view.advance 1 = (onBytes mark (mid.advance 1)).view := by
  rw [view_advance]
  show (between mark mid.behind.reverse mid.ahead).advance 1 = _
  rw [hahead]
  exact ByteView.advance_ascii hc

end ByteReader

end Quasiquote
