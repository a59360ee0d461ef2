import Quasiquote.Proofs.Source.BytePlaces

/-!
# Tokens of a reader on bytes

Within a line the reader that works on a buffer of bytes finds the tokens that the reader of characters
finds, and never faults.

## Main Statements

* `ByteReader.literal?_onBytes`, `ByteReader.nameOrLiteral?_onBytes`, `ByteReader.operator?_onBytes` — kinds of
  tokens
* `ByteReader.skipBlanks?_onBytes` — what separates tokens
* `ByteReader.lineToken?_onBytes` — the next token of a line
-/

namespace Quasiquote

open Utf8 (encode IsAscii Uniform)
open ByteView (between front)
open Lexer (onBytes Anchored)

namespace ByteReader

variable {mark : Nat} {lx rest : Lexer}

/-! ### Tokens -/

theorem feed_notMem_takeWhile {p : Char → Bool} (hfeed : p '\n' = false) (text : List Char) :
    '\n' ∉ text.takeWhile p := by
  intro hmem
  have hp := List.mem_takeWhile_imp hmem
  rw [hfeed] at hp
  cases hp

theorem comment?_onBytes (h : lx.Anchored) :
    (onBytes mark lx).comment? lx.here = some (stepOnBytes mark lx.comment) := by
  have hfeed : '\n' ∉ lx.ahead.take (lx.ahead.takeWhile fun c => !Scan.endsLine c).length := by
    rw [take_length_takeWhile]
    exact feed_notMem_takeWhile (by decide) _
  have hview : (onBytes mark lx).view.advanceLine? =
      some (onBytes mark (lx.advance (lx.ahead.takeWhile fun c => !Scan.endsLine c).length)).view := by
    rw [view_advance_while]
    exact ByteView.advanceLine?_between
  rw [comment?, hview]
  show ((onBytes mark lx).moved _).emit? .comment lx.here = _
  rw [moved_along, ← Lexer.advance_eq_advanceAlong hfeed, emit?, token?_advance h]
  rfl

/-- A line break ends in its only line feed. -/
theorem take_breakLength {text : List Char} (h : 0 < Scan.breakLength text) :
    ∃ s, '\n' ∉ s ∧ text.take (Scan.breakLength text) = s ++ ['\n'] := by
  unfold Scan.breakLength at h ⊢
  split
  · exact ⟨[], List.not_mem_nil, rfl⟩
  · exact ⟨['\r'], by decide, rfl⟩
  · simp at h

theorem lineBreak?_onBytes (h : lx.Anchored) (hbreak : 0 < Scan.breakLength lx.ahead) :
    (onBytes mark lx).lineBreak? lx.here = some (stepOnBytes mark lx.lineBreak) := by
  have hview : (onBytes mark lx).view.eatBreak? =
      some (onBytes mark (lx.advance (Scan.breakLength lx.ahead))).view := by
    rw [view_advance]
    exact ByteView.eatBreak?_between hbreak
  obtain ⟨s, hs, htake⟩ := take_breakLength hbreak
  -- whether the line goes on is settled before the token is made
  let open_ : Lexer := { lx with lineHasContent := lx.lineHasContent && !(lx.depth == 0 && lx.lineHasContent) }
  have hopen : open_.Anchored := ⟨h.offset, h.column⟩
  have hmoved : (onBytes mark open_).moved (onBytes mark (lx.advance (Scan.breakLength lx.ahead))).view =
      onBytes mark (open_.advanceAlong (Scan.breakLength lx.ahead)) :=
    moved_along mark open_ (Scan.breakLength lx.ahead)
  have htoken := token?_advanceAlong mark hopen
    (if lx.depth == 0 && lx.lineHasContent then .newline else .lineBreak) (Scan.breakLength lx.ahead)
  have hline := newLine_onBytes mark open_ hs htake
  have hstep : (onBytes mark lx).lineBreak? lx.here =
      ((onBytes mark (open_.advanceAlong (Scan.breakLength lx.ahead))).token?
        (if lx.depth == 0 && lx.lineHasContent then .newline else .lineBreak) open_.here).bind fun token =>
          some (.ok token, { (onBytes mark (open_.advanceAlong (Scan.breakLength lx.ahead))).newLine with
            atLineStart := true }) := by
    rw [lineBreak?, hview, ← hmoved]
    rfl
  rw [hstep, htoken, hline]
  rfl

theorem emit?_onBytes (h : lx.Anchored) (kind : Token.Kind) :
    (onBytes mark lx).emit? kind lx.here = some (stepOnBytes mark (.ok (lx.token kind 0), lx)) := by
  rw [emit?, token?_here h]
  rfl

theorem endOfSource?_onBytes (h : lx.Anchored) :
    (onBytes mark lx).endOfSource? lx.here = some (stepOnBytes mark lx.endOfSource) := by
  unfold endOfSource? Lexer.endOfSource
  show (if lx.lineHasContent then (onBytes mark { lx with lineHasContent := false }).emit? .newline lx.here
    else if lx.indents.length > 1 then
      (onBytes mark { lx with indents := lx.indents.drop 1 }).emit? .dedent lx.here
    else (onBytes mark lx).emit? .endMarker lx.here) = _
  split
  · have hline : ({ lx with lineHasContent := false } : Lexer).Anchored := ⟨h.offset, h.column⟩
    exact emit?_onBytes hline .newline
  split
  · have hlevel : ({ lx with indents := lx.indents.drop 1 } : Lexer).Anchored := ⟨h.offset, h.column⟩
    exact emit?_onBytes hlevel .dedent
  · exact emit?_onBytes h .endMarker

theorem number?_onBytes (h : lx.Anchored) :
    (onBytes mark lx).number? lx.here =
      some (stepOnBytes mark (lx.content .number (Scan.numberLength lx.ahead))) := by
  have hview : (onBytes mark lx).view.numberEnd? (onBytes mark lx).view.pos =
      some (onBytes mark (lx.advance (Scan.numberLength lx.ahead))).view := by
    rw [view_advance]
    exact ByteView.numberEnd?_between
  rw [number?, hview]
  show ((onBytes mark lx).moved _).content? .number lx.here = _
  rw [moved_along]
  exact content?_moved h .number (Scan.feed_notMem_number _ lx.ahead)

/-- Three quotes open a literal, or one does. -/
def opening (triple : Bool) : Nat := if triple then 3 else 1

theorem literalLength_cons (quote : Char) (rest : List Char) :
    Scan.literalLength (quote :: rest) =
      Scan.bodyLength.grow (opening (decide (rest.take 2 = [quote, quote])))
        (Scan.bodyLength quote (decide (rest.take 2 = [quote, quote]))
          ((quote :: rest).drop (opening (decide (rest.take 2 = [quote, quote]))))) := by
  rw [Scan.literalLength_cons]
  split
  · next htriple =>
    rw [decide_eq_true htriple]
    rfl
  · next hsingle =>
    rw [decide_eq_false hsingle]
    rfl

/-- What opens a literal are its quotes. -/
theorem take_opening (quote : Char) (rest : List Char) :
    (quote :: rest).take (opening (decide (rest.take 2 = [quote, quote]))) =
      List.replicate (opening (decide (rest.take 2 = [quote, quote]))) quote := by
  by_cases htriple : rest.take 2 = [quote, quote]
  · rw [decide_eq_true htriple]
    show quote :: rest.take 2 = _
    rw [htriple]
    rfl
  · rw [decide_eq_false htriple]
    rfl

theorem byteLength_replicate {c : Char} (hc : IsAscii c) (n : Nat) : byteLength (List.replicate n c) = n := by
  induction n with
  | zero => rfl
  | succ n ih => rw [List.replicate_succ, byteLength_cons, ih, Utf8.utf8Size_ascii hc, Nat.add_comm]

/-- The reader behind the quotes that open a literal. -/
def pastQuotes (mid : Lexer) (quote : Char) (rest : List Char) : Lexer :=
  mid.advanceAlong (opening (decide (rest.take 2 = [quote, quote])))

/-- What is found from there to the end of the literal. -/
def foundBody (mid : Lexer) (quote : Char) (rest : List Char) : Nat × Bool :=
  Scan.bodyLength quote (decide (rest.take 2 = [quote, quote])) (pastQuotes mid quote rest).ahead

/-- At the opening quote, the reader goes behind the literal or to where it cannot go on. -/
theorem literal?_eq {mid : Lexer} {quote : Char} {rest : List Char} (hahead : mid.ahead = quote :: rest)
    (hquote : Scan.isQuote quote = true) (start : Position) :
    (onBytes mark mid).literal? start =
      if (foundBody mid quote rest).2 then
        (onBytes mark ((pastQuotes mid quote rest).advance (foundBody mid quote rest).1)).content? .string start
      else some (.error (.unterminatedString start),
        onBytes mark ((pastQuotes mid quote rest).advanceAlong (foundBody mid quote rest).1)) := by
  have hascii := Scan.isAscii_of_isQuote hquote
  have hview : (onBytes mark mid).view = between mark mid.behind.reverse (quote :: rest) := by
    rw [← hahead]
    rfl
  have hhere : (onBytes mark mid).view.charHere? = some quote := by
    rw [hview, ByteView.charHere?_between, ByteView.front_ascii hascii]
  have htriple : ((onBytes mark mid).view.charAt ((onBytes mark mid).view.pos + 1) == quote &&
      (onBytes mark mid).view.charAt ((onBytes mark mid).view.pos + 2) == quote) =
        decide (rest.take 2 = [quote, quote]) := by
    rw [hview, Bool.eq_iff_iff, Bool.and_eq_true, beq_iff_eq, beq_iff_eq, ByteView.quotes_between hquote,
      decide_eq_true_iff]
  have hbody : (onBytes mark mid).view.advance (if decide (rest.take 2 = [quote, quote]) then 3 else 1) =
      (onBytes mark (pastQuotes mid quote rest)).view := by
    have hmoved := ByteView.advance_take mark mid.behind.reverse mid.ahead
      (opening (decide (rest.take 2 = [quote, quote])))
    rw [← view_advance, hahead, take_opening, byteLength_replicate hascii, ← hahead] at hmoved
    exact hmoved
  have hfound : (onBytes mark (pastQuotes mid quote rest)).view.literalBody? quote
      (decide (rest.take 2 = [quote, quote])) = some ((foundBody mid quote rest).2,
        (onBytes mark ((pastQuotes mid quote rest).advance (foundBody mid quote rest).1)).view) := by
    rw [view_advance]
    exact ByteView.literalBody?_between _ hquote _ _
  have hmoved (v : ByteView) :
      (onBytes mark mid).moved v = (onBytes mark (pastQuotes mid quote rest)).moved v := by
    rw [pastQuotes, ← moved_along, moved_moved]
  simp only [literal?, hhere, htriple, hbody, hfound, Option.bind_eq_bind, Option.bind_some, hmoved]
  split
  · rw [bumpLines?_advance, Option.bind_some]
  · rw [moved_along]
    rfl

/-- **A literal whose letters have been read.** -/
theorem literal?_onBytes (h : lx.Anchored) {letters : Nat} {quote : Char} {rest : List Char}
    (hahead : lx.ahead.drop letters = quote :: rest) (hquote : Scan.isQuote quote = true)
    (hletters : '\n' ∉ lx.ahead.take letters) :
    (onBytes mark (lx.advanceAlong letters)).literal? lx.here =
      some (stepOnBytes mark (lx.literal letters)) := by
  have hplace : pastQuotes (lx.advanceAlong letters) quote rest =
      lx.advanceAlong (letters + opening (decide (rest.take 2 = [quote, quote]))) :=
    Lexer.advanceAlong_advanceAlong lx _ _
  have hfeed : '\n' ∉ lx.ahead.take (letters + opening (decide (rest.take 2 = [quote, quote]))) := by
    rw [List.take_add, hahead, take_opening, List.mem_append, not_or]
    refine ⟨hletters, fun hmem => ?_⟩
    obtain rfl := List.eq_of_mem_replicate hmem
    exact absurd hquote (by decide)
  have hlength : Scan.literalLength (lx.ahead.drop letters) =
      ((foundBody (lx.advanceAlong letters) quote rest).1 + opening (decide (rest.take 2 = [quote, quote])),
        (foundBody (lx.advanceAlong letters) quote rest).2) := by
    have hbody : (pastQuotes (lx.advanceAlong letters) quote rest).ahead =
        (quote :: rest).drop (opening (decide (rest.take 2 = [quote, quote]))) := by
      rw [← hahead]
      rfl
    rw [foundBody, hbody, hahead, literalLength_cons]
    rfl
  have hsum : letters + opening (decide (rest.take 2 = [quote, quote])) +
      (foundBody (lx.advanceAlong letters) quote rest).1 =
        letters + ((foundBody (lx.advanceAlong letters) quote rest).1 +
          opening (decide (rest.take 2 = [quote, quote]))) := by omega
  rw [literal?_eq hahead hquote, Lexer.literal, hlength]
  simp only
  split
  · rw [hplace, ← Lexer.advance_eq_advanceAlong hfeed, Lexer.advance_advance, hsum]
    exact content?_advance h .string _
  · rw [hplace, Lexer.advanceAlong_advanceAlong, hsum]
    rfl

/-- **An identifier or a literal.** -/
theorem nameOrLiteral?_onBytes (h : lx.Anchored) :
    (onBytes mark lx).nameOrLiteral? lx.here = some (stepOnBytes mark lx.nameOrLiteral) := by
  have hfeed : '\n' ∉ lx.ahead.take (lx.ahead.takeWhile Scan.isIdentPart).length := by
    rw [take_length_takeWhile]
    exact feed_notMem_takeWhile (by decide) _
  have hview : (onBytes mark lx).view.eatWhile? Scan.isIdentPart =
      some (onBytes mark (lx.advance (lx.ahead.takeWhile Scan.isIdentPart).length)).view := by
    rw [view_advance_while]
    exact ByteView.eatWhile?_between Scan.uniform_isIdentPart (by decide)
  have hquote : Scan.isQuote (front (lx.advance (lx.ahead.takeWhile Scan.isIdentPart).length).ahead) =
      ((lx.ahead.drop (lx.ahead.takeWhile Scan.isIdentPart).length).take 1).any Scan.isQuote := by
    rw [Scan.any_take_one]
    exact ByteView.front_any Scan.uniform_isQuote (by decide) _
  simp only [nameOrLiteral?, hview, Option.bind_eq_bind, Option.bind_some, slice?_advance h, charHere?_onBytes,
    hquote, String.toList_ofList, moved_along, Lexer.nameOrLiteral]
  split
  · next hliteral =>
    rw [Bool.and_eq_true, Scan.any_take_one, Option.any_eq_true] at hliteral
    obtain ⟨⟨quote, hhead, hisQuote⟩, -⟩ := hliteral
    obtain ⟨rest, hrest⟩ := List.head?_eq_some_iff.1 hhead
    exact literal?_onBytes h hrest hisQuote hfeed
  · exact content?_moved h .name hfeed

/-- Operators are ASCII and no line feed. -/
theorem operators_ascii : ∀ op ∈ Scan.operators, byteLength op = op.length ∧ '\n' ∉ op := by decide +kernel

theorem uniform_operators1 : Uniform Scan.operators1.contains := by
  refine Utf8.uniform_of_ascii fun c hc => ?_
  have hall : ∀ a ∈ Scan.operators1, IsAscii a := by decide
  exact hall c (List.contains_iff_mem.1 hc)

theorem uniform_nest (depth : Nat) (c : Char) (rest : List Char) :
    Scan.nest depth (front (c :: rest)) = Scan.nest depth c := by
  have hsame (a : Char) (ha : IsAscii a) : front (c :: rest) = a ↔ c = a := ByteView.front_cons_eq_iff ha
  simp only [Scan.nest, hsame '(' (by decide), hsame '[' (by decide), hsame '\x7b' (by decide),
    hsame ')' (by decide), hsame ']' (by decide), hsame '\x7d' (by decide)]

/-- The window of the width that the byte ahead gives holds the character ahead. -/
theorem window_current (mark : Nat) {c : Char} {rest : List Char} (hahead : lx.ahead = c :: rest) :
    Scan.window (ByteView.characterWidth (onBytes mark lx).view.current) lx.ahead = some [c] := by
  have hwidth : ByteView.characterWidth (onBytes mark lx).view.current = byteLength [c] := by
    show ByteView.characterWidth (between mark lx.behind.reverse lx.ahead).current = _
    rw [hahead, ByteView.current_between, ByteView.characterWidth_lead]
    rfl
  rw [hwidth, hahead]
  refine ByteView.window_eq_some ⟨rest, rfl⟩ (Nat.min_eq_left ?_).symm
  exact Nat.add_le_add_left (Nat.zero_le _) _

/-- **An operator, or the character that begins none.** -/
theorem operator?_onBytes (mark : Nat) (h : lx.Anchored) {c : Char} {rest : List Char}
    (hahead : lx.ahead = c :: rest) :
    (onBytes mark lx).operator? lx.here (front lx.ahead) = some (stepOnBytes mark (lx.operator c)) := by
  have hwindow (bytes : Nat) : (onBytes mark lx).view.slice? lx.here.offset (lx.here.offset + bytes) =
      some (String.ofList ((Scan.window bytes lx.ahead).getD [])) := by
    rw [h.offset, ← byteLength_reverse]
    exact ByteView.slice?_window rfl bytes
  have hfirst : Scan.operators1.contains (front lx.ahead) = (lx.ahead.take 1).any Scan.operators1.contains := by
    rw [Scan.any_take_one]
    exact ByteView.front_any uniform_operators1 (by decide) _
  have hlength : (if Scan.operators3.any (·.isPrefixOf ((Scan.window 3 lx.ahead).getD [])) then 3
      else if Scan.operators2.any (·.isPrefixOf ((Scan.window 3 lx.ahead).getD [])) then 2
      else if (lx.ahead.take 1).any Scan.operators1.contains then 1 else 0) = Scan.operatorLength lx.ahead := rfl
  simp only [operator?, hwindow, Option.bind_eq_bind, Option.bind_some, String.toList_ofList, hfirst, hlength,
    Lexer.operator]
  cases hoperator : Scan.operatorLength lx.ahead with
  | zero =>
    rw [if_pos rfl, window_current mark hahead]
    rfl
  | succ n =>
    have hpos : 0 < Scan.operatorLength lx.ahead := by omega
    obtain ⟨hbytes, hfeed⟩ := operators_ascii _ (Scan.take_operatorLength_mem hpos)
    have hfits : (lx.ahead.take (Scan.operatorLength lx.ahead)).length = n + 1 := by
      rw [List.length_take, Nat.min_eq_left (Scan.operatorLength_le lx.ahead), hoperator]
    rw [hfits, hoperator] at hbytes
    rw [hoperator] at hfeed
    let nested : Lexer := { lx with depth := Scan.nest lx.depth c }
    have hview : (onBytes mark lx).view.advance (n + 1) = (onBytes mark (nested.advance (n + 1))).view := by
      have hmoved := ByteView.advance_take mark lx.behind.reverse lx.ahead (n + 1)
      rw [hbytes] at hmoved
      exact hmoved.trans (view_advance mark nested (n + 1)).symm
    have hmoved := moved_along mark nested (n + 1)
    have hnested : nested.Anchored := ⟨h.offset, h.column⟩
    have hcontent : (onBytes mark (nested.advanceAlong (n + 1))).content? .operator nested.here = _ :=
      content?_moved hnested .operator hfeed
    rw [← hmoved, ← hview] at hcontent
    have hnest : Scan.nest (onBytes mark lx).depth (front lx.ahead) = Scan.nest lx.depth c := by
      rw [hahead, uniform_nest]
      rfl
    rw [if_neg (Nat.succ_ne_zero n), hnest]
    exact hcontent

/-! ### Lines -/

/-- What separates tokens, one loop at a time: a gap, and what else is blank behind it. -/
theorem blankLength_takeWhile (text : List Char) :
    Scan.blankLength text =
      (text.takeWhile Scan.isGap).length + Scan.blankLength (text.dropWhile Scan.isGap) := by
  induction text with
  | nil => rfl
  | cons c rest ih =>
    rw [List.takeWhile_cons, List.dropWhile_cons]
    split
    · next hc =>
      have hplain : c ≠ '\\' ∧ c ≠ '\r' := by
        constructor <;> rintro rfl <;> exact absurd hc (by decide)
      rw [Scan.blankLength_cons (by simp [hplain]) (by simp [hplain]) (by simp [hplain]), hc, Bool.true_or,
        if_pos rfl, ih, List.length_cons]
      omega
    · rw [List.length_nil, Nat.zero_add]

theorem skipBlanks?_eq {r : ByteReader} {v : ByteView} {start : Position} {c : Char}
    (hgap : r.view.eatWhile? Scan.isGap = some v) (hhere : (r.moved v).here? = some start)
    (hc : v.charHere? = some c) :
    r.skipBlanks? =
      if c = '\\' ∧ v.isBreakAt (v.pos + 1) then
        (v.advance 1).eatBreak?.bind fun w => (r.moved w).newLine.skipBlanks?
      else if c = '\r' ∧ v.charAt (v.pos + 1) ≠ '\n' then (r.moved (v.advance 1)).skipBlanks?
      else some (start, c, r.moved v) := by
  rw [skipBlanks?]
  split
  · next hnone =>
    rw [hgap] at hnone
    cases hnone
  next w hw =>
  rw [hgap] at hw
  cases hw
  rw [hhere]
  dsimp only
  split
  · next hnone =>
    rw [hc] at hnone
    cases hnone
  next d hd =>
  rw [hc] at hd
  cases hd
  split
  · split
    · next hbreak =>
      rw [hbreak]
      rfl
    · next w hbreak =>
      rw [hbreak]
      rfl
  · rfl

/-- Behind a gap, the blanks go on with a joined line or a lone carriage return, or they are over. -/
theorem blankLength_cases {text : List Char} (hgap : ∀ c ∈ text.head?, Scan.isGap c = false) :
    (∃ rest, text = '\\' :: rest ∧ 0 < Scan.breakLength rest ∧ Scan.blankLength text =
      Scan.breakLength rest + 1 + Scan.blankLength (rest.drop (Scan.breakLength rest))) ∨
    (∃ rest, text = '\r' :: rest ∧ rest.head? ≠ some '\n' ∧ Scan.blankLength text = 1 + Scan.blankLength rest) ∨
    (Scan.blankLength text = 0 ∧ (∀ rest, text = '\\' :: rest → Scan.breakLength rest = 0) ∧
      ∀ rest, text = '\r' :: rest → rest.head? = some '\n') := by
  fun_cases Scan.blankLength text with
  | case1 rest => exact .inl ⟨_, rfl, Nat.one_pos, Nat.add_comm _ _⟩
  | case2 rest => exact .inl ⟨_, rfl, Nat.two_pos, Nat.add_comm _ _⟩
  | case3 rest =>
    refine .inr (.inr ⟨rfl, fun rest h => ?_, fun rest h => ?_⟩)
    · cases h
    · cases h
      rfl
  | case4 c rest hjoin hcrlf hreturn hblank =>
    have hc : c = '\r' := by simpa [hgap c rfl] using hblank
    subst hc
    refine .inr (.inl ⟨rest, rfl, fun hhead => ?_, Nat.add_comm _ _⟩)
    obtain ⟨more, hmore⟩ := List.head?_eq_some_iff.1 hhead
    exact hreturn more rfl hmore
  | case5 c rest hjoin hcrlf hreturn hblank =>
    refine .inr (.inr ⟨rfl, fun other h => ?_, fun other h => ?_⟩)
    · obtain ⟨rfl, rfl⟩ := List.cons.inj h
      cases rest with
      | nil => rfl
      | cons d rest =>
        have hfeed : d ≠ '\n' := fun hd => hjoin rest rfl (by rw [hd])
        have hpair : ¬ (d = '\r' ∧ rest.head? = some '\n') := by
          rintro ⟨hd, hhead⟩
          obtain ⟨more, hmore⟩ := List.head?_eq_some_iff.1 hhead
          exact hcrlf more rfl (by rw [hd, hmore])
        rw [Scan.breakLength_cons, if_neg hfeed, if_neg hpair]
    · obtain ⟨rfl, rfl⟩ := List.cons.inj h
      simp at hblank
  | case6 =>
    refine .inr (.inr ⟨rfl, fun rest h => ?_, fun rest h => ?_⟩)
    · cases h
    · cases h

/-- The reader behind the gap in front of it. -/
def afterGap (lx : Lexer) : Lexer := lx.advance lx.gapLength

theorem afterGap_ahead (lx : Lexer) : (afterGap lx).ahead = lx.ahead.dropWhile Scan.isGap := by
  rw [afterGap, Lexer.gapLength, Lexer.advance_ahead, drop_length_takeWhile]

theorem length_afterGap_le (lx : Lexer) : (afterGap lx).ahead.length ≤ lx.ahead.length := by
  rw [afterGap_ahead]
  exact (List.dropWhile_sublist _).length_le

theorem isGap_head_afterGap (lx : Lexer) : ∀ c ∈ (afterGap lx).ahead.head?, Scan.isGap c = false := by
  intro c hc
  have hnot := List.head?_dropWhile_not Scan.isGap lx.ahead
  rw [← afterGap_ahead, Option.mem_def.1 hc] at hnot
  exact hnot

theorem pastBlanks_afterGap (lx : Lexer) : (afterGap lx).pastBlanks = lx.pastBlanks := by
  rw [afterGap, Lexer.gapLength, Lexer.pastBlanks, Lexer.pastBlanks, Lexer.advance_advance,
    blankLength_takeWhile lx.ahead]
  show lx.advance (_ + Scan.blankLength (lx.ahead.drop _)) = _
  rw [drop_length_takeWhile]

/-- The rest of the blanks, behind some of them. -/
theorem pastBlanks_advance {n : Nat}
    (h : Scan.blankLength lx.ahead = n + Scan.blankLength (lx.ahead.drop n)) :
    (lx.advance n).pastBlanks = lx.pastBlanks := by
  rw [Lexer.pastBlanks, Lexer.pastBlanks, Lexer.advance_advance, h]
  rfl

/-- The reader behind a backslash and the line break that it joins. -/
theorem newLine_join (mark : Nat) {mid : Lexer} {rest : List Char} (hahead : mid.ahead = '\\' :: rest)
    (hbreak : 0 < Scan.breakLength rest) :
    ((onBytes mark mid).view.advance 1).eatBreak? =
        some (onBytes mark (mid.advance (Scan.breakLength rest + 1))).view ∧
      ((onBytes mark mid).moved (onBytes mark (mid.advance (Scan.breakLength rest + 1))).view).newLine =
        onBytes mark (mid.advance (Scan.breakLength rest + 1)) := by
  have hview : (onBytes mark mid).view.advance 1 = between mark (mid.behind.reverse ++ ['\\']) rest := by
    show (between mark mid.behind.reverse mid.ahead).advance 1 = _
    rw [hahead]
    exact ByteView.advance_ascii (by decide)
  obtain ⟨s, hs, htake⟩ := take_breakLength hbreak
  constructor
  · rw [hview, ByteView.eatBreak?_between hbreak, view_advance, hahead, List.append_assoc]
    rfl
  · rw [moved_along]
    refine newLine_onBytes mark mid (s := '\\' :: s) ?_ ?_
    · rw [List.mem_cons, not_or]
      exact ⟨by decide, hs⟩
    · rw [hahead, List.take_succ_cons, htake]
      rfl

/-- The gap is passed over on bytes. -/
theorem eatGap_onBytes (mark : Nat) (lx : Lexer) :
    (onBytes mark lx).view.eatWhile? Scan.isGap = some (onBytes mark (afterGap lx)).view ∧
      (onBytes mark lx).moved (onBytes mark (afterGap lx)).view = onBytes mark (afterGap lx) := by
  have hfeed : '\n' ∉ lx.ahead.take lx.gapLength := by
    rw [Lexer.gapLength, take_length_takeWhile]
    exact feed_notMem_takeWhile (by decide) _
  constructor
  · rw [afterGap, Lexer.gapLength, view_advance_while]
    exact ByteView.eatWhile?_between ByteView.uniform_isGap (by decide)
  · rw [afterGap, moved_along, ← Lexer.advance_eq_advanceAlong hfeed]

/-- Behind the gap the reader looks for a joined line and for a lone carriage return. -/
theorem skipBlanks?_afterGap (h : lx.Anchored) :
    (onBytes mark lx).skipBlanks? =
      if front (afterGap lx).ahead = '\\' ∧
          (onBytes mark (afterGap lx)).view.isBreakAt ((onBytes mark (afterGap lx)).view.pos + 1) then
        ((onBytes mark (afterGap lx)).view.advance 1).eatBreak?.bind fun w =>
          ((onBytes mark (afterGap lx)).moved w).newLine.skipBlanks?
      else if front (afterGap lx).ahead = '\r' ∧
          (onBytes mark (afterGap lx)).view.charAt ((onBytes mark (afterGap lx)).view.pos + 1) ≠ '\n' then
        ((onBytes mark (afterGap lx)).moved ((onBytes mark (afterGap lx)).view.advance 1)).skipBlanks?
      else some ((afterGap lx).here, front (afterGap lx).ahead, onBytes mark (afterGap lx)) := by
  obtain ⟨hview, hmoved⟩ := eatGap_onBytes mark lx
  have hmoved' (v : ByteView) : (onBytes mark lx).moved v = (onBytes mark (afterGap lx)).moved v := by
    rw [← hmoved, moved_moved]
  have hhere : ((onBytes mark lx).moved (onBytes mark (afterGap lx)).view).here? = some (afterGap lx).here := by
    rw [hmoved]
    exact here?_onBytes (h.advance _)
  rw [skipBlanks?_eq hview hhere (charHere?_onBytes mark (afterGap lx)), hmoved]
  simp only [hmoved']

/-- A backslash and the line break behind it are skipped. -/
theorem skipBlanks?_join (h : lx.Anchored) {rest : List Char} (hahead : (afterGap lx).ahead = '\\' :: rest)
    (hbreak : 0 < Scan.breakLength rest) :
    (onBytes mark lx).skipBlanks? =
      (onBytes mark ((afterGap lx).advance (Scan.breakLength rest + 1))).skipBlanks? := by
  have hfront : front (afterGap lx).ahead = '\\' := by
    rw [hahead]
    exact ByteView.front_ascii (by decide)
  obtain ⟨heat, hnew⟩ := newLine_join mark hahead hbreak
  rw [skipBlanks?_afterGap h, if_pos ⟨hfront, (isBreakAt_next hahead (by decide)).2 hbreak⟩, heat,
    Option.bind_some, hnew]

/-- A carriage return that no line feed follows is skipped. -/
theorem skipBlanks?_return (h : lx.Anchored) {rest : List Char} (hahead : (afterGap lx).ahead = '\r' :: rest)
    (hlone : rest.head? ≠ some '\n') :
    (onBytes mark lx).skipBlanks? = (onBytes mark ((afterGap lx).advance 1)).skipBlanks? := by
  have hfront : front (afterGap lx).ahead = '\r' := by
    rw [hahead]
    exact ByteView.front_ascii (by decide)
  have hjoin : ¬ front (afterGap lx).ahead = '\\' := by
    rw [hfront]
    decide
  have hnext : (onBytes mark (afterGap lx)).view.charAt ((onBytes mark (afterGap lx)).view.pos + 1) ≠ '\n' := by
    rw [charAt_next mark hahead (by decide), Ne, ByteView.front_eq_iff (by decide) (by decide)]
    rintro ⟨more, rfl⟩
    exact hlone rfl
  have hfeed : '\n' ∉ (afterGap lx).ahead.take 1 := by
    rw [hahead, List.take_succ_cons, List.take_zero]
    decide
  have hadvance : (onBytes mark (afterGap lx)).view.advance 1 = (onBytes mark ((afterGap lx).advance 1)).view :=
    advance_view_one hahead (by decide)
  rw [skipBlanks?_afterGap h, if_neg fun hboth => hjoin hboth.1, if_pos ⟨hfront, hnext⟩, hadvance, moved_along,
    ← Lexer.advance_eq_advanceAlong hfeed]

/-- Anything else behind the gap begins a token. -/
theorem skipBlanks?_stop (h : lx.Anchored)
    (hjoin : ∀ rest, (afterGap lx).ahead = '\\' :: rest → Scan.breakLength rest = 0)
    (hreturn : ∀ rest, (afterGap lx).ahead = '\r' :: rest → rest.head? = some '\n') :
    (onBytes mark lx).skipBlanks? =
      some ((afterGap lx).here, front (afterGap lx).ahead, onBytes mark (afterGap lx)) := by
  have hnojoin : ¬ (front (afterGap lx).ahead = '\\' ∧
      (onBytes mark (afterGap lx)).view.isBreakAt ((onBytes mark (afterGap lx)).view.pos + 1) = true) := by
    rintro ⟨hfront, hbreak⟩
    obtain ⟨rest, hahead⟩ := (ByteView.front_eq_iff (by decide) (by decide)).1 hfront
    have hpos := (isBreakAt_next hahead (by decide)).1 hbreak
    rw [hjoin rest hahead] at hpos
    exact Nat.lt_irrefl 0 hpos
  have hnoreturn : ¬ (front (afterGap lx).ahead = '\r' ∧
      (onBytes mark (afterGap lx)).view.charAt ((onBytes mark (afterGap lx)).view.pos + 1) ≠ '\n') := by
    rintro ⟨hfront, hnext⟩
    obtain ⟨rest, hahead⟩ := (ByteView.front_eq_iff (by decide) (by decide)).1 hfront
    obtain ⟨more, rfl⟩ := List.head?_eq_some_iff.1 (hreturn rest hahead)
    rw [charAt_next mark hahead (by decide)] at hnext
    exact hnext (ByteView.front_ascii (by decide))
  rw [skipBlanks?_afterGap h, if_neg hnojoin, if_neg hnoreturn]

/-- **The blanks before a token.** -/
theorem skipBlanks?_onBytes (lx : Lexer) (h : lx.Anchored) :
    (onBytes mark lx).skipBlanks? =
      some (lx.pastBlanks.here, front lx.pastBlanks.ahead, onBytes mark lx.pastBlanks) := by
  have hgap : (afterGap lx).Anchored := h.advance _
  have hshorter := length_afterGap_le lx
  rw [← pastBlanks_afterGap lx]
  rcases blankLength_cases (isGap_head_afterGap lx) with ⟨rest, hahead, hbreak, hlength⟩ |
    ⟨rest, hahead, hlone, hlength⟩ | ⟨hlength, hjoin, hreturn⟩
  · have hdrop : Scan.blankLength (afterGap lx).ahead = (Scan.breakLength rest + 1) +
        Scan.blankLength ((afterGap lx).ahead.drop (Scan.breakLength rest + 1)) := by
      rw [hlength, hahead]
      rfl
    rw [skipBlanks?_join h hahead hbreak, skipBlanks?_onBytes _ (hgap.advance _), pastBlanks_advance hdrop]
  · have hdrop : Scan.blankLength (afterGap lx).ahead = 1 + Scan.blankLength ((afterGap lx).ahead.drop 1) := by
      rw [hlength, hahead]
      rfl
    rw [skipBlanks?_return h hahead hlone, skipBlanks?_onBytes _ (hgap.advance 1), pastBlanks_advance hdrop]
  · have hstay : (afterGap lx).pastBlanks = afterGap lx := by
      rw [Lexer.pastBlanks, hlength, Lexer.advance_zero]
    rw [skipBlanks?_stop h hjoin hreturn, hstay]
termination_by lx.ahead.length
decreasing_by
  all_goals
    rw [Lexer.advance_ahead, hahead, List.length_drop]
    rw [hahead, List.length_cons] at hshorter
    rw [List.length_cons]
    omega

theorem isAscii_of_isDigit {c : Char} (h : c.isDigit = true) : IsAscii c := by
  rw [Char.isDigit_iff_toNat] at h
  exact Nat.lt_of_le_of_lt h.2 (by decide)

/-- Whether a number begins is seen from two bytes. -/
theorem startsNumber_onBytes (mark : Nat) {mid : Lexer} {c : Char} {rest : List Char}
    (hahead : mid.ahead = c :: rest) :
    ((front mid.ahead).isDigit ||
        front mid.ahead == '.' && ((onBytes mark mid).view.charAt ((onBytes mark mid).view.pos + 1)).isDigit) =
      Scan.startsNumber (c :: rest) := by
  have hdigit : Uniform Char.isDigit := Utf8.uniform_of_ascii fun _ => isAscii_of_isDigit
  have hpoint : Uniform (· == '.') := Utf8.uniform_beq (by decide)
  rw [Scan.startsNumber_cons, hahead, ByteView.front_uniform hdigit, ByteView.front_uniform hpoint]
  by_cases hc : c = '.'
  · subst hc
    rw [charAt_next mark hahead (by decide), ByteView.front_any hdigit (by decide)]
  · rw [beq_eq_false_iff_ne.2 hc, Bool.false_and, Bool.false_and]

/-- **The next token of a line.** -/
theorem lineToken?_onBytes (h : lx.Anchored) :
    (onBytes mark lx).lineToken? = some (stepOnBytes mark lx.lineToken) := by
  have hpast : lx.pastBlanks.Anchored := h.advance _
  have hends : (onBytes mark lx.pastBlanks).view.endsHere (front lx.pastBlanks.ahead) =
      lx.pastBlanks.ahead.isEmpty := ByteView.endsHere_between
  simp only [lineToken?, skipBlanks?_onBytes lx h, Option.bind_eq_bind, Option.bind_some, hends]
  cases hahead : lx.pastBlanks.ahead with
  | nil =>
    rw [List.isEmpty_nil, if_pos rfl, endOfSource?_onBytes hpast, Lexer.lineToken_nil hahead]
  | cons c rest =>
    have hfront (a : Char) (ha : IsAscii a) : front (c :: rest) = a ↔ c = a := ByteView.front_cons_eq_iff ha
    have hnumber := startsNumber_onBytes mark hahead
    rw [hahead] at hnumber
    simp only [List.isEmpty_cons, if_neg Bool.false_ne_true, hfront '#' (by decide), hfront '$' (by decide),
      ByteView.front_uniform Scan.uniform_endsLine, ByteView.front_uniform Scan.uniform_isQuote,
      ByteView.front_uniform Scan.uniform_isIdentStart, hnumber]
    split
    · next hcomment =>
      subst hcomment
      rw [comment?_onBytes hpast, Lexer.lineToken_comment hahead]
    next hcomment =>
    split
    · next hend =>
      have hbreak : 0 < Scan.breakLength lx.pastBlanks.ahead := by
        rw [Lexer.pastBlanks, Lexer.advance_ahead] at hahead ⊢
        exact Scan.breakLength_drop_blankLength hahead hend
      rw [lineBreak?_onBytes hpast hbreak, Lexer.lineToken_lineBreak hahead hend]
    next hend =>
    rw [Lexer.lineToken_cons hahead hcomment (by simpa using hend)]
    split
    · next hmarker =>
      subst hmarker
      have hone : '\n' ∉ lx.pastBlanks.ahead.take 1 := by
        rw [hahead, List.take_succ_cons, List.take_zero]
        decide
      rw [advance_view_one hahead (by decide), moved_along, content?_moved hpast .marker hone]
    split
    · rw [number?_onBytes hpast, hahead]
    split
    · next hquote =>
      have hliteral : (onBytes mark (lx.pastBlanks.advanceAlong 0)).literal? lx.pastBlanks.here = _ :=
        literal?_onBytes hpast hahead hquote (by simp)
      rwa [Lexer.advanceAlong_zero] at hliteral
    split
    · exact nameOrLiteral?_onBytes hpast
    · have hoperator := operator?_onBytes mark hpast hahead
      rwa [hahead] at hoperator

end ByteReader

end Quasiquote
