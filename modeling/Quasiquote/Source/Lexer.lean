import Quasiquote.Source.Token
import Quasiquote.Source.Error
import Quasiquote.Source.Scan

/-!
# Reading tokens

The reader of host source. It hands out one token at a time, with the indentation of lines turned
into tokens, and can also take foreign code out of the text as it stands.

## Main Definitions

* `Lexer` — a reader: the text behind it and ahead of it, and what it knows about lines
* `Lexer.next` — the next token
* `Lexer.takeIndentedBlock`, `Lexer.takeUntil` — the two ways of taking raw text
* `Lexer.run`, `tokenize` — all tokens up to the end

## Main Statements

* `Lexer.next_weight` — every token but the end marker uses up some of the reader's `weight`

## Design Notes

A reader is a zipper: the characters behind it (nearest first) and the characters ahead. It moves by
`advance`, which only shifts characters from one side to the other, so the two sides always make up
the source. An error does not stop a reader; it goes on from where the error left it.

Positions are natural numbers, and words of 32 bits in the program: sources of 2³² bytes and more are out of
scope.
-/

namespace Quasiquote

/-- A reader of host source. -/
structure Lexer where
  /-- The characters already read, the nearest first. -/
  behind : List Char
  /-- The characters still to be read. -/
  ahead : List Char
  here : Position
  /-- The widths of the open indentation levels, innermost first. The outermost is 0. -/
  indents : List Nat
  /-- The number of open brackets. Inside brackets a line break ends no logical line. -/
  depth : Nat
  /-- The indentation of the line ahead has not been looked at yet. -/
  atLineStart : Bool
  /-- The logical line has a token other than a comment. -/
  lineHasContent : Bool
  /-- Dedent tokens that are due before anything else. -/
  pendingDedents : Nat
deriving DecidableEq, Repr, Inhabited

/-- Text taken from a source as it stands. -/
structure RawText where
  text : String
  start : Position
  stop : Position
deriving DecidableEq, Repr, Inhabited

/-- The byte order mark, which may precede a source and is no part of it. -/
def byteOrderMark : Char := '\ufeff'

/-- A source without the byte order mark at its beginning. -/
def stripMark : List Char → List Char
  | [] => []
  | c :: rest => if c = byteOrderMark then rest else c :: rest

/-- The number of bytes that `stripMark` takes away. -/
def markLength : List Char → Nat
  | [] => 0
  | c :: _ => if c = byteOrderMark then c.utf8Size else 0

namespace Lexer

/-! ### Moving -/

/-- A reader at the beginning of a text that has no byte order mark. -/
def ofChars (text : List Char) : Lexer :=
  { behind := [], ahead := text, here := .origin, indents := [0], depth := 0,
    atLineStart := true, lineHasContent := false, pendingDedents := 0 }

/-- A reader at the beginning of a source. -/
def ofSource (source : String) : Lexer := ofChars (stripMark source.toList)

/-- The whole text, on both sides of the reader. -/
def source (lx : Lexer) : List Char := lx.behind.reverse ++ lx.ahead

/-- The reader `n` characters further on. -/
def advance (lx : Lexer) (n : Nat) : Lexer :=
  { lx with
    behind := (lx.ahead.take n).reverse ++ lx.behind
    ahead := lx.ahead.drop n
    here := lx.here.across (lx.ahead.take n) }

/-- The reader `n` characters further on, as if they stood on one line. -/
def advanceAlong (lx : Lexer) (n : Nat) : Lexer :=
  { lx with
    behind := (lx.ahead.take n).reverse ++ lx.behind
    ahead := lx.ahead.drop n
    here := lx.here.along (lx.ahead.take n) }

@[simp] theorem source_advance (lx : Lexer) (n : Nat) : (lx.advance n).source = lx.source := by
  simp [advance, source, List.append_assoc]

@[simp] theorem source_advanceAlong (lx : Lexer) (n : Nat) :
    (lx.advanceAlong n).source = lx.source := by
  simp [advanceAlong, source, List.append_assoc]

@[simp] theorem advance_zero (lx : Lexer) : lx.advance 0 = lx := by
  simp [advance]

@[simp] theorem advanceAlong_zero (lx : Lexer) : lx.advanceAlong 0 = lx := by
  simp [advanceAlong, Position.along]

/-- The physical line of the reader, with its line feed. -/
def physicalLine (lx : Lexer) : List Char :=
  (lx.behind.takeWhile (· ≠ '\n')).reverse ++ Text.firstLine lx.ahead

/-- The token made of the next `n` characters. -/
def token (lx : Lexer) (kind : Token.Kind) (n : Nat) : Token :=
  { kind
    text := String.ofList (lx.ahead.take n)
    start := lx.here
    stop := (lx.advance n).here
    line := String.ofList lx.physicalLine }

/-- The width of the innermost open indentation level. -/
def indent (lx : Lexer) : Nat := lx.indents.headD 0

/-! ### Tokens -/

/-- What a step of the reader gives: a token or an error, and the reader behind it. -/
abbrev Step := Except LexError Token × Lexer

/-- A token of `n` characters that makes its line a logical one. -/
def content (lx : Lexer) (kind : Token.Kind) (n : Nat) : Step :=
  (.ok (lx.token kind n), { lx.advance n with lineHasContent := true })

/-- A comment reaches to the end of its line and makes no line logical. -/
def comment (lx : Lexer) : Step :=
  let n := (lx.ahead.takeWhile fun c => !Scan.endsLine c).length
  (.ok (lx.token .comment n), lx.advance n)

/-- A line break ends the logical line if there is one and no bracket is open. Its token ends on
the line that it breaks. -/
def lineBreak (lx : Lexer) : Step :=
  let n := Scan.breakLength lx.ahead
  let logical := lx.depth == 0 && lx.lineHasContent
  let kind := if logical then Token.Kind.newline else .lineBreak
  (.ok { lx.token kind n with stop := lx.here.along (lx.ahead.take n) },
    { lx.advance n with
      atLineStart := true
      lineHasContent := lx.lineHasContent && !logical })

/-- The end of the source ends the logical line, then every open indentation level. -/
def endOfSource (lx : Lexer) : Step :=
  if lx.lineHasContent then (.ok (lx.token .newline 0), { lx with lineHasContent := false })
  else if lx.indents.length > 1 then
    (.ok (lx.token .dedent 0), { lx with indents := lx.indents.drop 1 })
  else (.ok (lx.token .endMarker 0), lx)

/-- A string literal with `letters` characters before its opening quote. An error leaves the reader
where the literal could not go on, still on the line on which it began. -/
def literal (lx : Lexer) (letters : Nat) : Step :=
  let found := Scan.literalLength (lx.ahead.drop letters)
  if found.2 then lx.content .string (letters + found.1)
  else (.error (.unterminatedString lx.here), lx.advanceAlong (letters + found.1))

/-- An identifier, or a string literal whose letters it turns out to be. -/
def nameOrLiteral (lx : Lexer) : Step :=
  let n := (lx.ahead.takeWhile Scan.isIdentPart).length
  if ((lx.ahead.drop n).take 1).any Scan.isQuote && Scan.isLiteralPrefix (lx.ahead.take n) then
    lx.literal n
  else lx.content .name n

/-- An operator. Its first character decides how it nests. -/
def operator (lx : Lexer) (first : Char) : Step :=
  match Scan.operatorLength lx.ahead with
  | 0 => (.error (.unexpectedCharacter lx.here first), lx)
  | n + 1 => ({ lx with depth := Scan.nest lx.depth first } : Lexer).content .operator (n + 1)

/-- The next token of a line whose indentation has been dealt with. -/
def lineToken (start : Lexer) : Step :=
  let lx := start.advance (Scan.blankLength start.ahead)
  match lx.ahead with
  | [] => lx.endOfSource
  | c :: rest =>
    if c = '#' then lx.comment
    else if Scan.endsLine c then lx.lineBreak
    else if c = '$' then lx.content .marker 1
    else if Scan.startsNumber (c :: rest) then lx.content .number (Scan.numberLength (c :: rest))
    else if Scan.isQuote c then lx.literal 0
    else if Scan.isIdentStart c then lx.nameOrLiteral
    else lx.operator c

/-- The token that the indentation of the line ahead amounts to, if any. Blank lines and comments
have no indentation. A line indented like an open level closes the levels inside it: one token now,
the others pending. -/
def indentation (lx : Lexer) : Option Step :=
  if Scan.isBlankLine lx.ahead || Scan.isCommentLine lx.ahead then none
  else
    let gap := (lx.ahead.takeWhile Scan.isGap).length
    let width := Scan.indentWidth lx.ahead
    let lx' := lx.advance gap
    if width > lx.indent then
      some (.ok (lx.token .indent gap), { lx' with indents := width :: lx.indents })
    else if width < lx.indent then
      let kept := lx.indents.dropWhile (width < ·)
      let lx' := { lx' with indents := kept }
      if lx'.indent = width then
        some (.ok (lx'.token .dedent 0),
          { lx' with pendingDedents := lx.indents.length - kept.length - 1 })
      else some (.error (.inconsistentDedent lx'.here), lx')
    else none

/-- The next token. -/
def next (lx : Lexer) : Step :=
  if lx.pendingDedents > 0 then
    (.ok (lx.token .dedent 0), { lx with pendingDedents := lx.pendingDedents - 1 })
  else if lx.atLineStart then
    let lx := { lx with atLineStart := false }
    if lx.depth = 0 then lx.indentation.getD lx.lineToken else lx.lineToken
  else lx.lineToken

/-! ### Raw text -/

/-- The lines of the block that follows the header just read. They must be called for at the
beginning of a line. Without a line deeper than the header there is no block, and the reader stays.
Lines that cannot end a block are left for the token stream when they trail it. -/
def takeIndentedBlock (lx : Lexer) : Option (RawText × Lexer) :=
  match Scan.regionLines lx.indent none (Text.physicalLines lx.ahead) with
  | [] => none
  | lines =>
    let text := lines.flatten
    let lx' := { lx.advance text.length with atLineStart := true, lineHasContent := false }
    some ({ text := String.ofList text, start := lx.here, stop := lx'.here }, lx')

/-- The text before the next `close`, with the reader behind it. The brackets of `close` count as if
they had been read as tokens. -/
def takeUntil (lx : Lexer) (close : String) : Option (RawText × Lexer) :=
  (Scan.findLength close.toList lx.ahead).map fun n =>
    let atClose := lx.advance n
    ({ text := String.ofList (lx.ahead.take n), start := lx.here, stop := atClose.here },
      { atClose.advance close.toList.length with
        depth := close.toList.foldl Scan.nest lx.depth
        lineHasContent := true })

/-! ### Progress -/

/-- What a reader has left to do: the characters ahead count twice, and every token that needs no
character of its own counts once. -/
def weight (lx : Lexer) : Nat :=
  2 * lx.ahead.length + lx.indents.length + lx.pendingDedents + lx.lineHasContent.toNat

@[simp] theorem advance_ahead (lx : Lexer) (n : Nat) : (lx.advance n).ahead = lx.ahead.drop n := rfl

@[simp] theorem advance_indents (lx : Lexer) (n : Nat) : (lx.advance n).indents = lx.indents := rfl

@[simp] theorem advance_pendingDedents (lx : Lexer) (n : Nat) :
    (lx.advance n).pendingDedents = lx.pendingDedents := rfl

@[simp] theorem advance_lineHasContent (lx : Lexer) (n : Nat) :
    (lx.advance n).lineHasContent = lx.lineHasContent := rfl

@[simp] theorem advance_depth (lx : Lexer) (n : Nat) : (lx.advance n).depth = lx.depth := rfl

theorem weight_advance_le (lx : Lexer) (n : Nat) : (lx.advance n).weight ≤ lx.weight := by
  simp only [weight, advance_ahead, advance_indents, advance_pendingDedents,
    advance_lineHasContent, List.length_drop]
  omega

/-- A step makes progress if it is an error or leaves less to do than there was. The end marker
leaves no more. -/
def Progress (weight : Nat) (step : Step) : Prop :=
  ∀ t, step.1 = .ok t →
    step.2.weight < weight ∨ t.kind = .endMarker ∧ step.2.weight ≤ weight

theorem Progress.mono {a b : Nat} {step : Step} (h : Progress a step) (hab : a ≤ b) :
    Progress b step := fun t ht =>
  (h t ht).imp (Nat.lt_of_lt_of_le · hab) fun ⟨hk, hw⟩ => ⟨hk, Nat.le_trans hw hab⟩

/-- Text that holds a character pays for the content that it brings. -/
theorem progress_content {lx : Lexer} (kind : Token.Kind) {n : Nat} (hn : 0 < n)
    (ha : lx.ahead ≠ []) : Progress lx.weight (lx.content kind n) := by
  refine fun _ _ => .inl ?_
  have : 0 < lx.ahead.length := List.length_pos_iff.2 ha
  have : lx.lineHasContent.toNat ≤ 1 := Bool.toNat_le _
  simp only [content, weight, advance_ahead, advance_indents, advance_pendingDedents,
    List.length_drop, Bool.toNat_true]
  omega

theorem progress_comment {lx : Lexer} {rest : List Char} (ha : lx.ahead = '#' :: rest) :
    Progress lx.weight lx.comment := by
  refine fun _ _ => .inl ?_
  have hc : Scan.endsLine '#' = false := by decide
  simp only [comment, weight, advance_ahead, advance_indents, advance_pendingDedents,
    advance_lineHasContent, List.length_drop, ha, List.takeWhile_cons, hc, Bool.not_false,
    List.length_cons, if_true]
  omega

theorem progress_lineBreak {lx : Lexer} (h : 0 < Scan.breakLength lx.ahead) :
    Progress lx.weight lx.lineBreak := by
  refine fun _ _ => .inl ?_
  have : 0 < lx.ahead.length := by
    cases ha : lx.ahead with
    | nil => simp [ha, Scan.breakLength] at h
    | cons => simp
  have : (lx.lineHasContent && !(lx.depth == 0 && lx.lineHasContent)).toNat
      ≤ lx.lineHasContent.toNat := by
    cases lx.lineHasContent <;> cases (lx.depth == 0) <;> decide
  simp only [lineBreak, weight, advance_ahead, advance_indents, advance_pendingDedents,
    List.length_drop]
  omega

theorem progress_endOfSource (lx : Lexer) : Progress lx.weight lx.endOfSource := by
  intro t ht
  unfold endOfSource at ht ⊢
  split at ht
  · next h => left; simp [weight, h]
  · next h =>
    split at ht
    · next hi => left; simp [weight, h, hi]; omega
    · next hi =>
      right
      simp only [Except.ok.injEq] at ht
      subst ht
      simp [token, h, hi]

theorem progress_literal {lx : Lexer} (letters : Nat) (ha : lx.ahead ≠ [])
    (hq : 0 < (Scan.literalLength (lx.ahead.drop letters)).1 ∨ 0 < letters) :
    Progress lx.weight (lx.literal letters) := by
  simp only [literal]
  split
  · exact progress_content _ (by omega) ha
  · intro t ht
    simp at ht

theorem progress_nameOrLiteral {lx : Lexer} {c : Char} {rest : List Char}
    (ha : lx.ahead = c :: rest) (hc : Scan.isIdentStart c = true) :
    Progress lx.weight lx.nameOrLiteral := by
  have hn : 0 < (lx.ahead.takeWhile Scan.isIdentPart).length := by
    simp [ha, Scan.isIdentPart, hc]
  have hne : lx.ahead ≠ [] := by simp [ha]
  simp only [nameOrLiteral]
  split
  · exact progress_literal _ hne (.inr hn)
  · exact progress_content _ hn hne

theorem progress_operator {lx : Lexer} (first : Char) (ha : lx.ahead ≠ []) :
    Progress lx.weight (lx.operator first) := by
  unfold operator
  split
  · intro t ht
    simp at ht
  · next n _ =>
    have hne : ({ lx with depth := Scan.nest lx.depth first } : Lexer).ahead ≠ [] := ha
    have := progress_content .operator (Nat.succ_pos n) hne
    exact this

theorem progress_lineToken (start : Lexer) : Progress start.weight start.lineToken := by
  refine Progress.mono ?_ (weight_advance_le start (Scan.blankLength start.ahead))
  simp only [lineToken]
  split
  · exact progress_endOfSource _
  · next c rest ha =>
    have hne : (start.advance (Scan.blankLength start.ahead)).ahead ≠ [] :=
      ha ▸ List.cons_ne_nil _ _
    have hstop : Scan.endsLine c = true →
        0 < Scan.breakLength (start.advance (Scan.blankLength start.ahead)).ahead := by
      intro hc
      rw [advance_ahead] at ha ⊢
      exact Scan.breakLength_drop_blankLength ha hc
    split
    · next hc => subst hc; exact progress_comment ha
    split
    · next hc => exact progress_lineBreak (hstop hc)
    split
    · exact progress_content _ Nat.one_pos hne
    split
    · next hc => exact progress_content _ (Scan.numberLength_pos hc) hne
    split
    · refine progress_literal 0 hne (.inl ?_)
      rw [ha, List.drop_zero]
      exact Scan.literalLength_pos c rest
    split
    · next hc => exact progress_nameOrLiteral ha hc
    · exact progress_operator c hne

theorem progress_indentation {lx : Lexer} {step : Step} (h : lx.indentation = some step) :
    Progress lx.weight step := by
  unfold indentation at h
  split at h
  · simp at h
  · next hblank =>
    simp only at h
    split at h
    · next hw =>
      cases h
      refine fun _ _ => .inl ?_
      have hgap : 0 < (lx.ahead.takeWhile Scan.isGap).length := by
        cases hg : lx.ahead.takeWhile Scan.isGap with
        | nil => simp [Scan.indentWidth, hg] at hw
        | cons => simp
      have hahead : 0 < lx.ahead.length :=
        Nat.lt_of_lt_of_le hgap (List.takeWhile_sublist _).length_le
      simp only [weight, advance_ahead, advance_pendingDedents, advance_lineHasContent,
        List.length_drop, List.length_cons]
      omega
    · split at h
      · next hw =>
        have hkept : (lx.indents.dropWhile (Scan.indentWidth lx.ahead < ·)).length
            < lx.indents.length := by
          cases hi : lx.indents with
          | nil => simp [indent, hi] at hw
          | cons top outer =>
            have htop : Scan.indentWidth lx.ahead < top := by simpa [indent, hi] using hw
            have := (List.dropWhile_sublist (Scan.indentWidth lx.ahead < ·) (l := outer)).length_le
            simp only [List.dropWhile_cons, htop, decide_true, if_true, List.length_cons]
            omega
        split at h
        · cases h
          refine fun _ _ => .inl ?_
          simp only [weight, advance_ahead, advance_lineHasContent, List.length_drop]
          omega
        · cases h
          intro t ht
          simp at ht
      · simp at h

theorem progress_next (lx : Lexer) : Progress lx.weight lx.next := by
  unfold next
  split
  · next h =>
    refine fun _ _ => .inl ?_
    simp only [weight]
    omega
  · split
    · simp only
      have hline : Progress lx.weight ({ lx with atLineStart := false } : Lexer).lineToken :=
        progress_lineToken _
      split
      · cases hi : ({ lx with atLineStart := false } : Lexer).indentation with
        | none => exact hline
        | some step =>
          have := progress_indentation hi
          exact this
      · exact hline
    · exact progress_lineToken lx

/-- Every token but the end marker uses up some of the reader's weight. -/
theorem next_weight {lx rest : Lexer} {t : Token} (h : lx.next = (.ok t, rest))
    (hk : t.kind ≠ .endMarker) : rest.weight < lx.weight := by
  have := progress_next lx t (by rw [h])
  rw [h] at this
  exact this.resolve_right fun hend => hk hend.1

/-- No token adds to the reader's weight. -/
theorem next_weight_le {lx rest : Lexer} {t : Token} (h : lx.next = (.ok t, rest)) :
    rest.weight ≤ lx.weight := by
  have := progress_next lx t (by rw [h])
  rw [h] at this
  exact this.elim Nat.le_of_lt fun hend => hend.2

/-- Taking a block uses up some of the reader's weight, as its text is not empty. -/
theorem takeIndentedBlock_weight_le {lx rest : Lexer} {raw : RawText}
    (h : lx.takeIndentedBlock = some (raw, rest)) : rest.weight ≤ lx.weight := by
  unfold takeIndentedBlock at h
  split at h
  · simp at h
  · next lines _ =>
    cases h
    simp only [weight, advance_ahead, advance_indents, advance_pendingDedents, List.length_drop,
      Bool.toNat_false]
    omega

/-- Taking text up to a closing sequence that is not empty uses up some of the reader's weight. -/
theorem takeUntil_weight_le {lx rest : Lexer} {raw : RawText} {close : String}
    (h : lx.takeUntil close = some (raw, rest)) (hc : close.toList ≠ []) :
    rest.weight ≤ lx.weight := by
  unfold takeUntil at h
  obtain ⟨n, hn, he⟩ := Option.map_eq_some_iff.1 h
  cases he
  have := Scan.findLength_le hn
  have := List.length_pos_iff.2 hc
  simp only [weight, advance_ahead, advance_indents, advance_pendingDedents, List.length_drop,
    Bool.toNat_true]
  omega

/-! ### Whole sources -/

/-- The tokens up to the end of the source or up to the first error, and that error. -/
def run (lx : Lexer) : List Token × Option LexError :=
  match _h : lx.next with
  | (.error e, _) => ([], some e)
  | (.ok t, rest) =>
    if _hk : t.kind = .endMarker then ([t], none)
    else
      let later := rest.run
      (t :: later.1, later.2)
termination_by lx.weight
decreasing_by exact next_weight _h _hk

end Lexer

/-- All tokens of a source. The last one is its end marker. -/
def tokenize (source : String) : Except LexError (List Token) :=
  match (Lexer.ofSource source).run with
  | (tokens, none) => .ok tokens
  | (_, some e) => .error e

end Quasiquote
