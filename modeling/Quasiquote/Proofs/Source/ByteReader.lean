import Quasiquote.Proofs.Source.ByteTokens

/-!
# The reader on bytes and the reader of characters

The reader that works on a buffer of bytes does what the reader of characters does: it is at the same place
with the same lines and levels, answers the same, and never faults.

## Main Definitions

* `ByteReader.rawOnBytes` — the answer of a reader that takes raw text
* `ByteReader.blockLines` — the lines of the block ahead

## Main Statements

* `ByteReader.next?_onBytes` — the next token
* `ByteReader.takeIndentedBlock?_onBytes`, `ByteReader.takeUntil?_onBytes` — raw text
-/

namespace Quasiquote

open Utf8 (encode IsAscii Uniform)
open ByteView (between front)
open Lexer (onBytes Anchored)

namespace ByteReader

variable {mark : Nat} {lx rest : Lexer}

/-! ### Indentation -/

/-- The indentation of a line, as the reader on bytes measures it. -/
theorem measureIndent_onBytes (mark : Nat) (lx : Lexer) :
    (onBytes mark lx).view.measureIndent 0 (onBytes mark lx).view.pos =
      (Scan.indentWidth lx.ahead, front (lx.ahead.dropWhile Scan.isGap)) :=
  ByteView.measureIndent_split (bytes_onBytes mark lx) 0

/-- A shallower line closes the innermost level. -/
theorem closed_lt {lx : Lexer} {width : Nat} (h : width < lx.indent) :
    (lx.indents.dropWhile (width < ·)).length < lx.indents.length := by
  cases hlevels : lx.indents with
  | nil =>
    rw [Lexer.indent, hlevels] at h
    exact absurd h (Nat.not_lt_zero width)
  | cons top outer =>
    have htop : width < top := by rwa [Lexer.indent, hlevels] at h
    rw [List.dropWhile_cons, if_pos (decide_eq_true htop), List.length_cons]
    exact Nat.lt_succ_of_le (List.dropWhile_sublist _).length_le

/-- The token of a line depends on what stands behind its blanks. -/
theorem lineToken_congr (h : rest.pastBlanks = lx.pastBlanks) : rest.lineToken = lx.lineToken := by
  have hpast : rest.advance (Scan.blankLength rest.ahead) = lx.advance (Scan.blankLength lx.ahead) := h
  simp only [Lexer.lineToken, hpast]

/-- On bytes a line is told to be blank or a comment by the first byte behind its indentation. -/
theorem indentation?_eq (mark : Nat) (h : lx.Anchored) :
    (onBytes mark lx).indentation? =
      if Scan.isBlankLine lx.ahead || Scan.isCommentLine lx.ahead then some (none, onBytes mark lx)
      else if lx.indent < Scan.indentWidth lx.ahead then
        let deeper : Lexer := { afterGap lx with indents := Scan.indentWidth lx.ahead :: lx.indents }
        ((onBytes mark deeper).token? .indent lx.here).bind fun t => some (some (.ok t), onBytes mark deeper)
      else if Scan.indentWidth lx.ahead < lx.indent then
        (onBytes mark lx.dedented).here?.bind fun here =>
          if lx.dedented.indent ≠ Scan.indentWidth lx.ahead then
            some (some (.error (.inconsistentDedent here)), onBytes mark lx.dedented)
          else if lx.indents.length - lx.dedented.indents.length < 1 then none
          else
            let pending : Lexer := { lx.dedented with
              pendingDedents := lx.indents.length - lx.dedented.indents.length - 1 }
            ((onBytes mark pending).token? .dedent here).bind fun t => some (some (.ok t), onBytes mark pending)
      else some (none, onBytes mark (afterGap lx)) := by
  obtain ⟨hview, hmoved⟩ := eatGap_onBytes mark lx
  have hline : (front (lx.ahead.dropWhile Scan.isGap) == '#' ||
      Scan.endsLine (front (lx.ahead.dropWhile Scan.isGap)) ||
      front (lx.ahead.dropWhile Scan.isGap) == '\x00') =
        (Scan.isBlankLine lx.ahead || Scan.isCommentLine lx.ahead) := by
    rw [Bool.or_assoc, ByteView.isBlankLine_front, ByteView.isCommentLine_front, Bool.or_comm]
  rw [indentation?, here?_onBytes h, Option.bind_eq_bind, Option.bind_some, measureIndent_onBytes, hview]
  dsimp only
  rw [hline, Option.bind_eq_bind, Option.bind_some, hmoved]
  rfl

/-- **What indentation amounts to.** Where it is nothing, the line has the same token in front of the
indentation and behind it. -/
theorem indentation?_onBytes (mark : Nat) (h : lx.Anchored) :
    (∃ step, lx.indentation = some step ∧
      (onBytes mark lx).indentation? = some (some step.1, onBytes mark step.2)) ∨
    (lx.indentation = none ∧ ∃ rest : Lexer, rest.Anchored ∧ rest.lineToken = lx.lineToken ∧
      (onBytes mark lx).indentation? = some (none, onBytes mark rest)) := by
  have hgap : (afterGap lx).Anchored := h.advance _
  rw [indentation?_eq mark h, Lexer.indentation_eq]
  split
  · exact .inr ⟨rfl, lx, h, rfl, rfl⟩
  split
  · let deeper : Lexer := { afterGap lx with indents := Scan.indentWidth lx.ahead :: lx.indents }
    have htoken : (onBytes mark deeper).token? .indent lx.here = some (lx.token .indent lx.gapLength) :=
      token?_onBytes h ⟨hgap.offset, hgap.column⟩ rfl (List.take_append_drop lx.gapLength lx.ahead).symm .indent
    refine .inl ⟨_, rfl, ?_⟩
    show ((onBytes mark deeper).token? .indent lx.here).bind _ = _
    rw [htoken]
    rfl
  split
  · next hless =>
    have hdedented : lx.dedented.Anchored := ⟨hgap.offset, hgap.column⟩
    have hclosed : ¬ lx.indents.length - lx.dedented.indents.length < 1 := by
      have hlevels : lx.dedented.indents.length < lx.indents.length := closed_lt hless
      omega
    rw [here?_onBytes hdedented, Option.bind_some]
    by_cases hlevel : lx.dedented.indent = Scan.indentWidth lx.ahead
    · let pending : Lexer := { lx.dedented with
        pendingDedents := lx.indents.length - lx.dedented.indents.length - 1 }
      have htoken : (onBytes mark pending).token? .dedent lx.dedented.here =
          some (lx.dedented.token .dedent 0) :=
        token?_here ⟨hgap.offset, hgap.column⟩ .dedent
      refine .inl ⟨_, if_pos hlevel, ?_⟩
      rw [if_neg (not_not.2 hlevel), if_neg hclosed]
      show ((onBytes mark pending).token? .dedent lx.dedented.here).bind _ = _
      rw [htoken]
      rfl
    · exact .inl ⟨_, if_neg hlevel, if_pos hlevel⟩
  · exact .inr ⟨rfl, afterGap lx, hgap, lineToken_congr (pastBlanks_afterGap lx), rfl⟩

/-- **The next token.** -/
theorem next?_onBytes (h : lx.Anchored) : (onBytes mark lx).next? = some (stepOnBytes mark lx.next) := by
  have honLine : lx.onLine.Anchored := ⟨h.offset, h.column⟩
  rw [Lexer.next_eq]
  split
  · next hdue =>
    have hpending : ({ lx with pendingDedents := lx.pendingDedents - 1 } : Lexer).Anchored :=
      ⟨h.offset, h.column⟩
    refine (if_pos hdue).trans ?_
    show ((onBytes mark { lx with pendingDedents := lx.pendingDedents - 1 }).here?.bind _) = _
    rw [here?_onBytes hpending, Option.bind_some]
    exact emit?_onBytes hpending .dedent
  next hdue =>
  split
  · next hstart =>
    split
    · next hdepth =>
      refine (if_neg hdue).trans ((if_pos hstart).trans ((if_pos hdepth).trans ?_))
      show ((onBytes mark lx.onLine).indentation?.bind _) = _
      rcases indentation?_onBytes mark honLine with ⟨step, hstep, hbytes⟩ | ⟨hnone, rest, hrest, hsame, hbytes⟩
      · rw [hbytes, hstep]
        rfl
      · rw [hbytes, hnone, Option.bind_some, Option.getD_none, ← hsame]
        exact lineToken?_onBytes hrest
    · next hdepth =>
      refine (if_neg hdue).trans ((if_pos hstart).trans ((if_neg hdepth).trans ?_))
      exact lineToken?_onBytes honLine
  · next hstart =>
    refine (if_neg hdue).trans ((if_neg hstart).trans ?_)
    exact lineToken?_onBytes h

/-! ### Raw text -/

/-- What a reader answers that takes raw text, and the reader behind it. -/
def rawOnBytes (mark : Nat) (lx : Lexer) (taken : Option (RawText × Lexer)) : Option RawText × ByteReader :=
  match taken with
  | some (raw, rest) => (some raw, onBytes mark rest)
  | none => (none, onBytes mark lx)

/-- The lines of the block ahead. -/
def blockLines (lx : Lexer) : List (List Char) :=
  Scan.regionLines lx.indent none (Text.physicalLines lx.ahead)

theorem take_blockLines (lx : Lexer) : lx.ahead.take (blockLines lx).flatten.length = (blockLines lx).flatten :=
  (List.prefix_iff_eq_take.1 (Scan.flatten_regionLines_prefix lx.indent none lx.ahead)).symm

/-- The end of the block ahead. -/
theorem regionEnd_onBytes (mark : Nat) (lx : Lexer) :
    ∃ body last, (onBytes mark lx).view.regionEnd lx.indent none (onBytes mark lx).view.pos
        (onBytes mark lx).view.pos = (body, last) ∧ body.isNone = (blockLines lx).isEmpty ∧
      (blockLines lx ≠ [] → last = (onBytes mark (lx.advance (blockLines lx).flatten.length)).view.pos) := by
  have hbytes : (onBytes mark lx).view.bytes = encode (lx.behind.reverse ++ lx.ahead) := rfl
  obtain ⟨hsome, hlast⟩ := ByteView.regionEnd_split lx.indent (onBytes mark lx).view.pos none
    (Text.physicalLines lx.ahead) hbytes rfl
  refine ⟨_, _, rfl, ?_, fun hne => ?_⟩
  · have hnone := congrArg (!·) hsome
    simp only [Option.isSome_none, Bool.false_or, Bool.not_not, Option.not_isSome] at hnone
    exact hnone
  · refine hlast.trans ((if_neg hne).trans ?_)
    rw [pos_advance, take_blockLines, byteLength_reverse]
    rfl

/-- **The lines of a block.** -/
theorem takeIndentedBlock?_onBytes (h : lx.Anchored) (hstart : lx.atLineStart = true) :
    (onBytes mark lx).takeIndentedBlock? = some (rawOnBytes mark lx lx.takeIndentedBlock) := by
  obtain ⟨body, last, hend, hnone, hlast⟩ := regionEnd_onBytes mark lx
  have hstart' : (!(onBytes mark lx).atLineStart) = false := by
    show (!lx.atLineStart) = false
    rw [hstart]
    rfl
  have hindent : (onBytes mark lx).indents.headD 0 = lx.indent := rfl
  simp only [takeIndentedBlock?, hstart', hindent, hend, hnone]
  by_cases hempty : blockLines lx = []
  · have hblock : lx.takeIndentedBlock = none := by
      rw [blockLines] at hempty
      rw [Lexer.takeIndentedBlock, hempty]
    rw [hempty, hblock]
    rfl
  · have hsome : (blockLines lx).isEmpty = false := by rwa [Bool.eq_false_iff, Ne, List.isEmpty_iff]
    have hrest : (lx.advance (blockLines lx).flatten.length).Anchored := h.advance _
    let rest : Lexer :=
      { lx.advance (blockLines lx).flatten.length with atLineStart := true, lineHasContent := false }
    have hstop : (onBytes mark rest).here? = some rest.here := here?_onBytes ⟨hrest.offset, hrest.column⟩
    have hblock : lx.takeIndentedBlock =
        some ({ text := String.ofList (blockLines lx).flatten, start := lx.here, stop := rest.here },
          rest) := by
      unfold Lexer.takeIndentedBlock
      split
      · next hnil => exact absurd hnil hempty
      · rfl
    simp only [hsome, hlast hempty, here?_onBytes h, slice?_between (bytes_onBytes mark lx), moveTo?_advance,
      bumpLines?_advance, take_blockLines, Option.bind_eq_bind, Option.bind_some, hblock]
    show ((onBytes mark rest).here?.bind fun stop =>
      some (some (RawText.mk (String.ofList (blockLines lx).flatten) lx.here stop), onBytes mark rest)) = _
    rw [hstop]
    rfl

/-- The bytes behind a leading one do not nest. -/
theorem foldl_nest_followers (c : Char) (depth : Nat) :
    ((Utf8.followers c).map Char.ofUInt8).foldl Scan.nest depth = depth := by
  have hwide : ∀ b ∈ Utf8.followers c, Char.ofUInt8 b ∉ Scan.brackets := by
    intro b hb hbracket
    have hascii : ∀ a ∈ Scan.brackets, IsAscii a := by decide
    exact Utf8.not_isAscii_follower hb (hascii _ hbracket)
  generalize Utf8.followers c = bytes at hwide
  induction bytes with
  | nil => rfl
  | cons b bytes ih =>
    rw [List.forall_mem_cons] at hwide
    rw [List.map_cons, List.foldl_cons, Scan.nest_of_not_bracket hwide.1, ih hwide.2]

/-- Bytes nest as the characters do. -/
theorem foldl_nest_encode (text : List Char) (depth : Nat) :
    ((encode text).map Char.ofUInt8).foldl Scan.nest depth = text.foldl Scan.nest depth := by
  induction text generalizing depth with
  | nil => rfl
  | cons c rest ih =>
    have hlead : Scan.nest depth (.ofUInt8 (Utf8.lead c)) = Scan.nest depth c := uniform_nest depth c []
    rw [Utf8.encode_cons, List.map_cons, List.map_append, List.foldl_cons, List.foldl_append, List.foldl_cons,
      hlead, foldl_nest_followers, ih]

/-- **The text up to a closing sequence.** -/
theorem takeUntil?_onBytes (h : lx.Anchored) (close : String) :
    (onBytes mark lx).takeUntil? close = some (rawOnBytes mark lx (lx.takeUntil close)) := by
  have hfind : (onBytes mark lx).view.find? close =
      some ((Scan.findLength close.toList lx.ahead).map fun n => (onBytes mark (lx.advance n)).view.pos) := by
    simp only [pos_advance]
    rw [← byteLength_reverse]
    exact ByteView.find?_between close
  simp only [takeUntil?, hfind, Lexer.takeUntil, Option.bind_eq_bind, Option.bind_some]
  cases hfound : Scan.findLength close.toList lx.ahead with
  | none => rfl
  | some n =>
    have hclose : (lx.advance n).ahead.take close.toList.length = close.toList :=
      (List.prefix_iff_eq_take.1 (Scan.findLength_spec hfound)).symm
    have hbump : (onBytes mark lx).bumpLines? (onBytes mark lx).view.pos
        (onBytes mark (lx.advance n)).view.pos =
          some ((onBytes mark (lx.advance n)).moved (onBytes mark lx).view) := by
      rw [pos_onBytes, pos_advance]
      exact bumpLines?_moved rfl n
    have hstop : ((onBytes mark (lx.advance n)).moved (onBytes mark lx).view).positionAt?
        (onBytes mark (lx.advance n)).view.pos = some (lx.advance n).here := by
      rw [positionAt?_moved (by rw [bytes_onBytes, bytes_onBytes, Lexer.source_advance])]
      exact here?_onBytes (h.advance n)
    have hlast : (onBytes mark (lx.advance n)).view.pos + (encode close.toList).length =
        (onBytes mark ((lx.advance n).advance close.toList.length)).view.pos := by
      rw [pos_advance mark (lx.advance n), hclose, pos_onBytes, length_encode]
    have hmoved : (onBytes mark lx).view.moveTo?
        (onBytes mark ((lx.advance n).advance close.toList.length)).view.pos =
          some (onBytes mark ((lx.advance n).advance close.toList.length)).view := by
      rw [Lexer.advance_advance]
      exact moveTo?_advance _
    have hview : ((onBytes mark (lx.advance n)).moved (onBytes mark lx).view).view =
        (onBytes mark lx).view := rfl
    simp only [Option.map_some, here?_onBytes h, slice?_between (bytes_onBytes mark lx), hbump, hstop, hlast,
      hview, hmoved, moved_moved, bumpLines?_advance, ByteView.toUTF8_eq, foldl_nest_encode, Option.bind_some]
    rfl

end ByteReader

end Quasiquote
