import Mathlib.Data.Prod.Lex
import Quasiquote.Proofs.Source.ByteReader

/-!
# Readers stay in bounds

Whatever a reader is called for, errors included, it stays at the beginning of a character of its source or
at the end, and looks at no byte outside its buffer. Every token but the end marker leaves it with less to
do, and behind the end marker it stays.

## Main Definitions

* `Lexer.BlocksAtLineStart` — calls that ask for a block only at the beginning of a line
* `ByteReader.call?`, `ByteReader.after?` — calls of a reader on bytes
* `ByteReader.measure` — what a reader has left to do
* `ByteReader.InBounds` — what is known of a reader at every place that calls lead it to

## Main Statements

* `ByteReader.call?_onBytes`, `ByteReader.after?_onBytes` — one call, and any number of them
* `Lexer.next_measure` — every token but the end marker uses up some of the measure
* `Lexer.length_run_le` — how many tokens there can be
* `ByteReader.stays_in_bounds` — runs of calls

## Design Notes

A token need not use up a character: a dedent closes a level, and the end of the source ends a line. What
such a token uses up comes behind the characters in the order of the measure, since a character may open a
level or begin a line.

The statements are about sources of any length, with offsets that are natural numbers. The program keeps offsets
in 32 bits, so that they speak about it for sources of less than 2³² bytes.
-/

namespace Quasiquote

namespace Lexer

/-- Calls that ask for a block only where a line begins. -/
def BlocksAtLineStart (lx : Lexer) : List Call → Prop
  | [] => True
  | c :: cs => (c = .block → lx.atLineStart = true) ∧ (lx.call c).2.BlocksAtLineStart cs

instance decidableBlocksAtLineStart (lx : Lexer) (cs : List Call) : Decidable (lx.BlocksAtLineStart cs) :=
  match cs with
  | [] => .isTrue trivial
  | c :: cs =>
    have := decidableBlocksAtLineStart (lx.call c).2 cs
    inferInstanceAs (Decidable ((c = .block → lx.atLineStart = true) ∧ (lx.call c).2.BlocksAtLineStart cs))

variable {lx rest : Lexer} {t : Token}

/-! ### Places -/

theorem Anchored.congr {lx' : Lexer} (h : lx.Anchored) (hplace : lx'.place = lx.place) : lx'.Anchored := by
  simp only [place, Prod.mk.injEq] at hplace
  obtain ⟨hbehind, -, hhere⟩ := hplace
  exact ⟨by rw [hbehind, hhere, h.offset], by rw [hbehind, hhere]; exact h.column⟩

theorem source_congr {lx' : Lexer} (hplace : lx'.place = lx.place) : lx'.source = lx.source := by
  simp only [place, Prod.mk.injEq] at hplace
  rw [source, source, hplace.1, hplace.2.1]

theorem Anchored.call (h : lx.Anchored) (c : Call) : (lx.call c).2.Anchored := by
  obtain ⟨m, n, hplace⟩ := lx.call_place c
  exact ((h.advance m).advanceAlong n).congr hplace

theorem source_call (lx : Lexer) (c : Call) : (lx.call c).2.source = lx.source := by
  obtain ⟨m, n, hplace⟩ := lx.call_place c
  rw [source_congr hplace, source_advanceAlong, source_advance]

theorem Anchored.after (h : lx.Anchored) (cs : List Call) : (lx.after cs).Anchored := by
  induction cs generalizing lx with
  | nil => exact h
  | cons c cs ih => exact ih (h.call c)

theorem source_after (lx : Lexer) (cs : List Call) : (lx.after cs).source = lx.source := by
  induction cs generalizing lx with
  | nil => rfl
  | cons c cs ih => exact (ih (lx.call c).2).trans (lx.source_call c)

/-! ### Progress -/

/-- What a reader has left to do: the bytes ahead, then the line that it is to end, then the levels that it
is to close and the dedents that are due. -/
def measure (lx : Lexer) : ℕ ×ₗ ℕ ×ₗ ℕ :=
  toLex (byteLength lx.ahead, toLex (lx.lineHasContent.toNat, lx.indents.length + lx.pendingDedents))

theorem byteLength_drop_le (text : List Char) (n : Nat) : byteLength (text.drop n) ≤ byteLength text := by
  conv_rhs => rw [← List.take_append_drop n text, byteLength_append]
  exact Nat.le_add_left _ _

theorem byteLength_drop_lt {text : List Char} (hne : text ≠ []) {n : Nat} (hn : 0 < n) :
    byteLength (text.drop n) < byteLength text := by
  obtain ⟨c, rest, rfl⟩ := List.exists_cons_of_ne_nil hne
  obtain ⟨m, rfl⟩ : ∃ m, n = m + 1 := ⟨n - 1, by omega⟩
  have hpos := c.utf8Size_pos
  have hle := byteLength_drop_le rest m
  rw [List.drop_succ_cons, byteLength_cons]
  omega

/-- Fewer bytes leave less to do, whatever the lines and levels. -/
theorem measure_lt_of_bytes (h : byteLength rest.ahead < byteLength lx.ahead) : rest.measure < lx.measure :=
  Prod.Lex.toLex_lt_toLex.2 (.inl h)

/-- With no more bytes, a line that has been ended leaves less to do, whatever the levels. -/
theorem measure_lt_of_line (hbytes : byteLength rest.ahead ≤ byteLength lx.ahead)
    (h : rest.lineHasContent.toNat < lx.lineHasContent.toNat) : rest.measure < lx.measure := by
  rcases Nat.lt_or_eq_of_le hbytes with hless | hsame
  · exact measure_lt_of_bytes hless
  · exact Prod.Lex.toLex_lt_toLex.2 (.inr ⟨hsame, Prod.Lex.toLex_lt_toLex.2 (.inl h)⟩)

/-- With no more bytes and the same line, fewer levels and dedents leave less to do. -/
theorem measure_lt_of_levels (hbytes : byteLength rest.ahead ≤ byteLength lx.ahead)
    (hline : rest.lineHasContent = lx.lineHasContent)
    (h : rest.indents.length + rest.pendingDedents < lx.indents.length + lx.pendingDedents) :
    rest.measure < lx.measure := by
  rcases Nat.lt_or_eq_of_le hbytes with hless | hsame
  · exact measure_lt_of_bytes hless
  · refine Prod.Lex.toLex_lt_toLex.2 (.inr ⟨hsame, Prod.Lex.toLex_lt_toLex.2 (.inr ⟨?_, h⟩)⟩)
    exact congrArg Bool.toNat hline

theorem measure_endOfSource (h : lx.endOfSource = (.ok t, rest)) (hk : t.kind ≠ .endMarker) :
    rest.measure < lx.measure := by
  rcases endOfSource_cases h with ⟨hcontent, -, rfl⟩ | ⟨-, hmore, -, rfl⟩ | ⟨-, -, rfl, -⟩
  · refine measure_lt_of_line (Nat.le_refl _) ?_
    rw [hcontent]
    exact Nat.one_pos
  · refine measure_lt_of_levels (Nat.le_refl _) rfl ?_
    show (lx.indents.drop 1).length + lx.pendingDedents < _
    rw [List.length_drop]
    omega
  · exact absurd rfl hk

theorem measure_lineToken (h : lx.lineToken = (.ok t, rest)) (hk : t.kind ≠ .endMarker) :
    rest.measure < lx.measure := by
  have hblanks : lx.pastBlanks.measure ≤ lx.measure := by
    rcases Nat.lt_or_eq_of_le (byteLength_drop_le lx.ahead (Scan.blankLength lx.ahead)) with hless | hsame
    · exact le_of_lt (measure_lt_of_bytes hless)
    · exact le_of_eq (congrArg (fun bytes => toLex (bytes, _)) hsame)
  refine lt_of_lt_of_le ?_ hblanks
  rcases lineToken_cases h with ⟨-, hend⟩ | ⟨text, hahead, hcomment⟩ | ⟨c, text, hahead, hc, hbreak⟩ |
    ⟨c, text, kind, n, hahead, hlexeme, hstep⟩
  · exact measure_endOfSource hend hk
  · cases hcomment
    have hpos : 0 < (lx.pastBlanks.ahead.takeWhile fun c => !Scan.endsLine c).length := by
      simp [hahead, show Scan.endsLine '#' = false by decide]
    exact measure_lt_of_bytes (byteLength_drop_lt (hahead ▸ List.cons_ne_nil _ _) hpos)
  · cases hbreak
    have hpos : 0 < Scan.breakLength lx.pastBlanks.ahead := Scan.breakLength_drop_blankLength hahead hc
    exact measure_lt_of_bytes (byteLength_drop_lt (hahead ▸ List.cons_ne_nil _ _) hpos)
  · cases hstep
    exact measure_lt_of_bytes (byteLength_drop_lt (hahead ▸ List.cons_ne_nil _ _) (Scan.lexeme_length hlexeme).1)

theorem measure_indentation (hpending : lx.pendingDedents = 0) (h : lx.indentation = some (.ok t, rest)) :
    rest.measure < lx.measure := by
  rcases indentation_cases h with ⟨hdeeper, -, rfl⟩ | ⟨hless, -, -, rfl⟩
  · -- a line is deeper than some level only behind a gap
    have hgap : 0 < lx.gapLength := by
      rw [gapLength, List.length_pos_iff]
      intro hnone
      rw [Scan.indentWidth, hnone] at hdeeper
      exact Nat.not_lt_zero _ hdeeper
    have hne : lx.ahead ≠ [] := by
      intro hnil
      rw [gapLength, hnil] at hgap
      exact Nat.lt_irrefl 0 hgap
    exact measure_lt_of_bytes (byteLength_drop_lt hne hgap)
  · have hclosed : lx.dedented.indents.length < lx.indents.length := ByteReader.closed_lt hless
    refine measure_lt_of_levels (byteLength_drop_le _ _) rfl ?_
    show lx.dedented.indents.length + (lx.indents.length - lx.dedented.indents.length - 1) < _
    omega

/-- **Every token but the end marker uses up some of the measure.** -/
theorem next_measure (h : lx.next = (.ok t, rest)) (hk : t.kind ≠ .endMarker) : rest.measure < lx.measure := by
  rcases lx.next_cases with hpending | ⟨hpending, hstart, hdepth, step, hstep⟩ | hat
  · rw [next_of_pending hpending] at h
    cases h
    refine measure_lt_of_levels (Nat.le_refl _) rfl ?_
    show lx.indents.length + (lx.pendingDedents - 1) < _
    omega
  · rw [next_of_indentation hpending hstart hdepth hstep] at h
    subst h
    have hless : rest.measure < lx.onLine.measure := measure_indentation hpending hstep
    exact hless
  · rw [next_of_atToken hat] at h
    have hless : rest.measure < lx.onLine.measure := measure_lineToken h hk
    exact hless

/-- **Behind the end marker a reader stays.** -/
theorem next_endMarker (h : lx.next = (.ok t, rest)) (hk : t.kind = .endMarker) : rest.next = (.ok t, rest) := by
  obtain ⟨⟨hpending, -⟩, hline⟩ := lineToken_of_next h (by simp [hk])
  rcases lineToken_kinds hline with ⟨-, hnil, hend⟩ | ⟨hkind, -⟩ | ⟨hkind, -⟩ | ⟨hword, -⟩
  · -- at the end of the source there are no blanks, and no line begins
    rcases endOfSource_cases hend with ⟨-, rfl, -⟩ | ⟨-, -, rfl, -⟩ | ⟨-, -, -, hrest⟩
    · cases hk
    · cases hk
    have hsame : rest.onLine = rest := by rw [hrest]; rfl
    have hahead : rest.ahead = [] := by rw [hrest, hnil]
    have hblanks : rest.pastBlanks = rest := by
      rw [pastBlanks, hahead, Scan.blankLength, advance_zero]
    have hat : rest.AtToken := by
      refine ⟨?_, fun hstart => ?_⟩
      · rw [hrest]
        exact hpending
      · rw [← hsame] at hstart
        cases hstart
    rw [next_of_atToken hat, hsame, lineToken_nil (by rw [hblanks, hahead]), hblanks, hrest]
    rw [hrest] at hend
    exact hend
  · simp [hk] at hkind
  · simp [hk] at hkind
  · simp [Token.Kind.isWord, hk] at hword

/-- A reader gives no more tokens than it has weight, and the end marker. -/
theorem length_run_le (lx : Lexer) : lx.run.1.length ≤ lx.weight + 1 := by
  fun_induction run lx with
  | case1 => exact Nat.zero_le _
  | case2 => exact Nat.succ_le_succ (Nat.zero_le _)
  | case3 lx t rest hnext hk later ih =>
    have hless := next_weight hnext hk
    show rest.run.1.length + 1 ≤ lx.weight + 1
    omega

theorem length_tokenize_le {source : String} {tokens : List Token} (h : tokenize source = .ok tokens) :
    tokens.length ≤ 2 * (stripMark source.toList).length + 2 := by
  have hweight : (ofSource source).weight = 2 * (stripMark source.toList).length + 1 := rfl
  have hrun := length_run_le (ofSource source)
  unfold tokenize at h
  split at h
  · next found heq =>
    cases h
    rw [heq, hweight] at hrun
    exact hrun
  · cases h

end Lexer

namespace ByteReader

open Lexer (onBytes Anchored)

/-- One call of a reader on bytes, and the reader behind it. -/
def call? (r : ByteReader) : Lexer.Call → Option (Lexer.Reply × ByteReader)
  | .token => r.next?.map fun step =>
    match step with
    | (.ok t, rest) => (.token t, rest)
    | (.error e, rest) => (.error e, rest)
  | .block => r.takeIndentedBlock?.map fun (raw, rest) => (raw.elim .nothing .raw, rest)
  | .upTo close => (r.takeUntil? close).map fun (raw, rest) => (raw.elim .nothing .raw, rest)

/-- The reader behind a list of calls. It goes on from where an error left it, but not from a fault. -/
def after? (r : ByteReader) (cs : List Lexer.Call) : Option ByteReader :=
  cs.foldlM (fun r c => (r.call? c).map Prod.snd) r

/-- What a reader has left to do: the bytes ahead, then the line that it is to end, then the levels that it
is to close and the dedents that are due. -/
def measure (r : ByteReader) : ℕ ×ₗ ℕ ×ₗ ℕ :=
  toLex (r.view.size - r.view.pos,
    toLex (r.lineHasContent.toNat, r.indents.length + r.pendingDedents))

/-- **What is known of a reader on bytes** at a place of its source, and of the reader of characters there. -/
structure InBounds (source : String) (lx : Lexer) (r : ByteReader) : Prop where
  /-- The reader is at the beginning of a character, or at the end. -/
  boundary : ∃ before after, stripMark source.toList = before ++ after ∧ r.view.pos = byteLength before
  within : r.view.pos ≤ r.view.size
  /-- Whether a block can be asked for is as the reader of characters says. -/
  lineStart : r.atLineStart = lx.atLineStart
  /-- No call is a fault, except for a block in the middle of a line. It is answered as by the reader of
  characters. -/
  answers : ∀ c, (c = .block → r.atLineStart = true) → ∃ rest, r.call? c = some ((lx.call c).1, rest)
  /-- A token leaves less to do. -/
  decreases : ∀ t rest, r.next? = some (.ok t, rest) → t.kind ≠ .endMarker → rest.measure < r.measure
  /-- Behind the end marker there is only the end marker. -/
  ends : ∀ t rest, r.next? = some (.ok t, rest) → t.kind = .endMarker → rest.next? = some (.ok t, rest)

variable {mark : Nat} {lx : Lexer}

/-- **A reader on bytes answers a call as the reader of characters does.** -/
theorem call?_onBytes (h : lx.Anchored) {c : Lexer.Call} (hblock : c = .block → lx.atLineStart = true) :
    (onBytes mark lx).call? c = some ((lx.call c).1, onBytes mark (lx.call c).2) := by
  cases c with
  | token =>
    rw [call?, next?_onBytes h, Lexer.call]
    rcases hnext : lx.next with ⟨e | t, rest⟩
    · rfl
    · rfl
  | block =>
    rw [call?, takeIndentedBlock?_onBytes h (hblock rfl), Lexer.call]
    cases lx.takeIndentedBlock with
    | none => rfl
    | some taken => rfl
  | upTo close =>
    rw [call?, takeUntil?_onBytes h, Lexer.call]
    cases lx.takeUntil close with
    | none => rfl
    | some taken => rfl

/-- **Calls do not fault.** -/
theorem after?_onBytes (h : lx.Anchored) {cs : List Lexer.Call} (hblocks : lx.BlocksAtLineStart cs) :
    (onBytes mark lx).after? cs = some (onBytes mark (lx.after cs)) := by
  induction cs generalizing lx with
  | nil => rfl
  | cons c cs ih =>
    have hlater := ih (h.call c) hblocks.2
    rw [after?, List.foldlM_cons, call?_onBytes h hblocks.1]
    exact hlater

theorem measure_onBytes : (onBytes mark lx).measure = lx.measure := by
  have hleft : (onBytes mark lx).view.size - (onBytes mark lx).view.pos = byteLength lx.ahead := by
    rw [size_onBytes, pos_onBytes, Nat.add_sub_cancel_left]
  rw [measure, hleft]
  rfl

/-- A token that the reader on bytes gives is one that the reader of characters gives. -/
theorem next_of_next? {t : Token} {rest : ByteReader} (h : lx.Anchored)
    (hnext : (onBytes mark lx).next? = some (.ok t, rest)) :
    ∃ rest', lx.next = (.ok t, rest') ∧ rest = onBytes mark rest' := by
  rw [next?_onBytes h, Option.some.injEq, stepOnBytes, Prod.mk.injEq] at hnext
  exact ⟨lx.next.2, Prod.ext hnext.1 rfl, hnext.2.symm⟩

/-- A reader on bytes is in bounds where the reader of characters is at its place. -/
theorem inBounds_onBytes {source : String} (h : lx.Anchored) (hsource : lx.source = stripMark source.toList) :
    InBounds source lx (onBytes mark lx) where
  boundary := ⟨lx.behind.reverse, lx.ahead, hsource.symm, rfl⟩
  within := ByteView.pos_le_size
  lineStart := rfl
  answers c hblock := ⟨_, call?_onBytes h hblock⟩
  decreases t rest hnext hk := by
    obtain ⟨rest, hlexer, rfl⟩ := next_of_next? h hnext
    rw [measure_onBytes, measure_onBytes]
    exact Lexer.next_measure hlexer hk
  ends t rest hnext hk := by
    obtain ⟨rest, hlexer, rfl⟩ := next_of_next? h hnext
    obtain ⟨gap, htakes⟩ := Lexer.takes_next hlexer
    rw [next?_onBytes (h.moves htakes.moves), Lexer.next_endMarker hlexer hk]
    rfl

/-- **Readers stay in bounds.** Calls do not fault, wherever they lead to and whatever errors they meet. A
source has no more tokens than twice its characters, and two. Offsets are natural numbers: what is said here
holds of offsets in 32 bits for sources that these can count. -/
theorem stays_in_bounds (source : String) :
    (∀ cs : List Lexer.Call, (Lexer.ofSource source).BlocksAtLineStart cs →
      ∃ r, (ofSource source).after? cs = some r ∧ InBounds source ((Lexer.ofSource source).after cs) r) ∧
    ∀ tokens, tokenize source = .ok tokens → tokens.length ≤ 2 * (stripMark source.toList).length + 2 := by
  have hstart : (Lexer.ofSource source).Anchored := Lexer.anchored_ofChars _
  refine ⟨fun cs hblocks => ?_, fun tokens htokens => Lexer.length_tokenize_le htokens⟩
  refine ⟨onBytes (markLength source.toList) ((Lexer.ofSource source).after cs), ?_, ?_⟩
  · rw [ofSource_eq]
    exact after?_onBytes hstart hblocks
  · refine inBounds_onBytes (hstart.after cs) ?_
    rw [Lexer.source_after]
    rfl

/-- A literal that holds the closing sequence of another text. -/
def strayClose : String := "\u00e9:\n  b\n\u00e9 = \"|]'\"\n"

/-- Calls for the block, and for what is in the literal. The quotes behind the closing sequence are taken for
a literal that does not end. -/
def strayCalls : List Lexer.Call :=
  [.token, .token, .token, .block, .token, .token, .upTo "|]", .token, .token, .token]

theorem strayClose_in_bounds :
    (Lexer.ofSource strayClose).BlocksAtLineStart strayCalls ∧
      (((Lexer.ofSource strayClose).after (strayCalls.take 7)).call .token).1 =
        .error (.unterminatedString ⟨16, 3, 7⟩) ∧
      (∃ r, (ofSource strayClose).after? strayCalls = some r ∧
        InBounds strayClose ((Lexer.ofSource strayClose).after strayCalls) r) ∧
      ∃ tokens, tokenize strayClose = .ok tokens ∧ tokens.length = 12 ∧
        tokens.length ≤ 2 * (stripMark strayClose.toList).length + 2 := by
  have hblocks : (Lexer.ofSource strayClose).BlocksAtLineStart strayCalls := by decide +kernel
  have hlength : (tokenize strayClose).toOption.map List.length = some 12 := by decide +kernel
  obtain ⟨tokens, htokens, hcount⟩ := Option.map_eq_some_iff.1 hlength
  have htokenize := toOption_eq_some_iff.1 htokens
  obtain ⟨hcalls, htotal⟩ := stays_in_bounds strayClose
  exact ⟨hblocks, by decide +kernel, hcalls strayCalls hblocks, tokens, htokenize, hcount,
    htotal tokens htokenize⟩

end ByteReader

end Quasiquote
