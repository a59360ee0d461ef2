import Mathlib.Data.List.Induction
import Quasiquote.Proofs.Source.Raw

/-!
# Positions of a reader

Where a reader is, where its tokens and raw texts begin and end and where its errors are: all of these
are the positions of places in the source, counted from its beginning. The place that an unterminated
literal leaves the reader at is no such position if the literal holds a line feed.

## Main Definitions

* `Position.Canonical` — the position of a place in a text
* `Lexer.Call`, `Lexer.Reply`, `Lexer.calls` — what a reader is called for, and what it answers
* `Lexer.Reply.CrossesLines` — an unterminated literal that holds a line feed

## Main Statements

* `Position.canonical_iff` — a place in a text has one canonical position
* `Lexer.call_placed` — what one call of a reader keeps
* `Lexer.calls_canonical` — the positions in a run of calls up to the first error

## Design Notes

A reader carries its position along. The position is canonical as long as every stretch of text is
carried `across`, which counts line feeds. A literal that never closes is the one stretch that is
carried `along` and can hold a line feed.
-/

namespace Quasiquote

/-! ### Places in a text -/

/-- **The position of a place in a text:** the bytes before it, one more than the line feeds before it,
and the characters between the last of these and the place. -/
def Position.Canonical (text : List Char) (p : Position) : Prop :=
  ∃ before after, text = before ++ after ∧ p.offset = byteLength before ∧
    p.line = 1 + before.count '\n' ∧ p.column = (before.reverse.takeWhile (· ≠ '\n')).length

/-- A place in a text is told by the bytes before it. -/
theorem before_eq_of_byteLength {a b x y : List Char} (h : a ++ x = b ++ y)
    (hlength : byteLength a = byteLength b) : a = b := by
  have hnil {c : List Char} (hc : byteLength c = 0) : c = [] := by
    cases c with
    | nil => rfl
    | cons d c =>
      have := d.utf8Size_pos
      rw [byteLength_cons] at hc
      omega
  rcases List.append_eq_append_iff.1 h with ⟨c, rfl, -⟩ | ⟨c, rfl, -⟩
  · rw [byteLength_append] at hlength
    rw [hnil (c := c) (by omega), List.append_nil]
  · rw [byteLength_append] at hlength
    rw [hnil (c := c) (by omega), List.append_nil]

namespace Position

/-- From the beginning, the column counts the characters behind the last line feed. -/
theorem column_across_origin (text : List Char) :
    (origin.across text).column = (text.reverse.takeWhile (· ≠ '\n')).length := by
  induction text using List.reverseRecOn with
  | nil => rfl
  | append_singleton text c ih =>
    rw [across_append, across_cons, across_nil, List.reverse_concat, List.takeWhile_cons, past]
    by_cases hc : c = '\n'
    · simp [hc]
    · simp [hc, ih]

/-- The position behind a text from its beginning. -/
theorem across_origin (text : List Char) :
    origin.across text = ⟨byteLength text, 1 + text.count '\n',
      (text.reverse.takeWhile (· ≠ '\n')).length⟩ := by
  rw [← column_across_origin, ← Nat.zero_add (byteLength text)]
  exact congrArg₂ (fun offset line => (⟨offset, line, _⟩ : Position)) (across_offset origin text)
    (across_line origin text)

/-- What is carried across a text from its beginning is canonical. -/
theorem canonical_across (before after : List Char) :
    (origin.across before).Canonical (before ++ after) := by
  rw [across_origin]
  exact ⟨before, after, rfl, rfl, rfl, rfl⟩

/-- **A place has one canonical position.** -/
theorem canonical_iff {p : Position} {before after : List Char} (h : p.offset = byteLength before) :
    p.Canonical (before ++ after) ↔ p = origin.across before := by
  constructor
  · rintro ⟨before', after', htext, hoffset, hline, hcolumn⟩
    have hsame : before' = before := before_eq_of_byteLength htext.symm (by omega)
    rw [across_origin, ← hsame, ← hoffset, ← hline, ← hcolumn]
  · rintro rfl
    exact canonical_across before after

end Position

namespace Lexer

/-! ### Calls -/

/-- What a reader can be called for. -/
inductive Call where
  /-- The next token. -/
  | token
  /-- The lines of an indented block. -/
  | block
  /-- The text before a closing sequence. -/
  | upTo (close : String)
deriving DecidableEq, Repr

/-- What a reader answers. -/
inductive Reply where
  | token (t : Token)
  | raw (text : RawText)
  /-- There is no such raw text. -/
  | nothing
  | error (e : LexError)
deriving DecidableEq, Repr

/-- One call of a reader, and the reader behind it. -/
def call (lx : Lexer) : Call → Reply × Lexer
  | .token =>
    match lx.next with
    | (.ok t, rest) => (.token t, rest)
    | (.error e, rest) => (.error e, rest)
  | .block =>
    match lx.takeIndentedBlock with
    | some (raw, rest) => (.raw raw, rest)
    | none => (.nothing, lx)
  | .upTo close =>
    match lx.takeUntil close with
    | some (raw, rest) => (.raw raw, rest)
    | none => (.nothing, lx)

/-- Calls of a reader, one after another, up to and with the first error. -/
def calls (lx : Lexer) : List Call → List (Reply × Lexer)
  | [] => []
  | c :: cs =>
    match lx.call c with
    | (.error e, rest) => [(.error e, rest)]
    | (reply, rest) => (reply, rest) :: rest.calls cs

namespace Reply

/-- **The positions in an answer are canonical,** up to the ends of line breaks. -/
def Canonical (text : List Char) : Reply → Prop
  | token t => t.start.Canonical text ∧
      (t.kind ≠ .newline ∧ t.kind ≠ .lineBreak → t.stop.Canonical text)
  | raw r => r.start.Canonical text ∧ r.stop.Canonical text
  | nothing => True
  | error e => ∃ p, e.position? = some p ∧ p.Canonical text

/-- **An unterminated literal that holds a line feed.** The reader gave up at the position `here`. -/
def CrossesLines (text : List Char) (here : Position) (reply : Reply) : Prop :=
  ∃ p before literal after, reply = .error (.unterminatedString p) ∧
    text = before ++ (literal ++ after) ∧ p.offset = byteLength before ∧
    here.offset = byteLength (before ++ literal) ∧ '\n' ∈ literal

end Reply

/-! ### Steps -/

/-- A token that is no line break ends where the reader goes on. -/
theorem stop_of_next {lx rest : Lexer} {t : Token} (h : lx.next = (.ok t, rest))
    (hk : t.kind ≠ .newline ∧ t.kind ≠ .lineBreak) : t.stop = rest.here := by
  rcases lx.next_cases with hpending | ⟨hpending, hstart, hdepth, step, hstep⟩ | hat
  · rw [next_of_pending hpending] at h
    cases h
    simp [token]
  · rw [next_of_indentation hpending hstart hdepth hstep] at h
    subst h
    rcases indentation_cases hstep with ⟨-, rfl, rfl⟩ | ⟨-, -, rfl, rfl⟩
    · rfl
    · simp [token]
  · rw [next_of_atToken hat] at h
    rcases lineToken_cases h with ⟨-, hend⟩ | ⟨_, -, hcomment⟩ | ⟨_, _, -, -, hbreak⟩ |
      ⟨c, _, kind, n, -, -, hstep⟩
    · rcases endOfSource_cases hend with ⟨-, rfl, rfl⟩ | ⟨-, -, rfl, rfl⟩ | ⟨-, -, rfl, rfl⟩ <;>
        simp [token]
    · cases hcomment
      rfl
    · cases hbreak
      dsimp only [token] at hk
      split at hk <;> simp at hk
    · cases hstep
      rfl

/-- The cases of an error on a line: a literal that does not end, or a character that begins no
token. -/
theorem lineToken_error {lx rest : Lexer} {e : LexError} (h : lx.lineToken = (.error e, rest)) :
    (∃ c, e = .unexpectedCharacter lx.pastBlanks.here c ∧ rest = lx.pastBlanks) ∨
    (∃ n, e = .unterminatedString lx.pastBlanks.here ∧ rest = lx.pastBlanks.advanceAlong n) := by
  have hliteral {lx rest : Lexer} {letters : Nat} (h : lx.literal letters = (.error e, rest)) :
      ∃ n, e = .unterminatedString lx.here ∧ rest = lx.advanceAlong n := by
    simp only [literal] at h
    split at h
    · simp [content] at h
    · cases h
      exact ⟨_, rfl, rfl⟩
  simp only [lineToken] at h
  change _ ∨ _
  split at h
  · unfold endOfSource at h
    split at h
    · cases h
    split at h <;> cases h
  split at h
  · cases h
  split at h
  · cases h
  split at h
  · cases h
  split at h
  · cases h
  split at h
  · exact .inr (hliteral h)
  split at h
  · unfold nameOrLiteral at h
    simp only at h
    split at h
    · exact .inr (hliteral h)
    · cases h
  · unfold operator at h
    split at h
    · cases h
      exact .inl ⟨_, rfl, rfl⟩
    · cases h

/-- **The cases of an error.** The reader is where the error is, or behind a literal that does not
end. -/
theorem next_error {lx rest : Lexer} {e : LexError} (h : lx.next = (.error e, rest)) :
    (∃ gap, lx.Moves gap rest ∧ e.position? = some rest.here ∧ ∀ p, e ≠ .unterminatedString p) ∨
    (∃ gap mid literal, lx.Moves gap mid ∧ e = .unterminatedString mid.here ∧
      rest.behind = literal.reverse ++ mid.behind ∧ mid.ahead = literal ++ rest.ahead ∧
      rest.here = mid.here.along literal) := by
  rcases lx.next_cases with hpending | ⟨hpending, hstart, hdepth, step, hstep⟩ | hat
  · rw [next_of_pending hpending] at h
    cases h
  · rw [next_of_indentation hpending hstart hdepth hstep] at h
    subst h
    rw [indentation_eq] at hstep
    split at hstep
    · cases hstep
    split at hstep
    · cases hstep
    split at hstep
    · split at hstep
      · cases hstep
      · cases hstep
        exact .inl ⟨_, (lx.moves_advance lx.gapLength).congr rfl rfl, rfl, by simp⟩
    · cases hstep
  · rw [next_of_atToken hat] at h
    have hmoves : lx.Moves _ lx.onLine.pastBlanks := (lx.moves_advance _).congr rfl rfl
    rcases lineToken_error h with ⟨c, rfl, rfl⟩ | ⟨n, rfl, rfl⟩
    · exact .inl ⟨_, hmoves, rfl, by simp⟩
    · refine .inr ⟨_, _, lx.onLine.pastBlanks.ahead.take n, hmoves, rfl, rfl, ?_, rfl⟩
      exact (List.take_append_drop n _).symm

/-! ### Runs -/

/-- A reader of a text, at the canonical position of its place in it. -/
def Placed (text : List Char) (lx : Lexer) : Prop := ∃ before, (ofChars text).Moves before lx

section

variable {text : List Char} {lx rest : Lexer}

theorem placed_ofChars (text : List Char) : Placed text (ofChars text) := ⟨[], .refl _⟩

theorem Placed.moves {stretch : List Char} (h : Placed text lx) (hmoves : lx.Moves stretch rest) :
    Placed text rest := by
  obtain ⟨before, hbefore⟩ := h
  exact ⟨_, hbefore.trans hmoves⟩

theorem Placed.exists_before (h : Placed text lx) :
    ∃ before, text = before ++ lx.ahead ∧ lx.here = Position.origin.across before ∧
      lx.here.offset = byteLength before := by
  obtain ⟨before, hbefore⟩ := h
  refine ⟨before, hbefore.ahead, hbefore.here, ?_⟩
  rw [hbefore.here]
  exact (Position.across_offset _ before).trans (Nat.zero_add _)

theorem Placed.canonical (h : Placed text lx) : lx.here.Canonical text := by
  obtain ⟨before, htext, hhere, -⟩ := h.exists_before
  rw [hhere, htext]
  exact Position.canonical_across before lx.ahead

/-- The place behind a stretch of the text ahead. -/
theorem Placed.across {stretch after : List Char} (h : Placed text lx)
    (hahead : lx.ahead = stretch ++ after) : (lx.here.across stretch).Canonical text := by
  have hstretch := lx.moves_advance stretch.length
  rw [hahead, List.take_left] at hstretch
  rw [← hstretch.here]
  exact (h.moves hstretch).canonical

/-- **A stretch that is carried along** leads to a canonical position if it holds no line feed. -/
theorem Placed.along_iff {stretch after : List Char} (h : Placed text lx)
    (hahead : lx.ahead = stretch ++ after) :
    (lx.here.along stretch).Canonical text ↔ '\n' ∉ stretch := by
  obtain ⟨before, htext, hhere, hbefore⟩ := h.exists_before
  have hoffset : (lx.here.along stretch).offset = byteLength (before ++ stretch) := by
    rw [byteLength_append, ← hbefore]
    rfl
  rw [htext, hahead, ← List.append_assoc, Position.canonical_iff hoffset, Position.across_append,
    ← hhere]
  constructor
  · intro hsame hfeed
    have hline : (lx.here.along stretch).line = (lx.here.across stretch).line := by rw [hsame]
    have hcount : 0 < stretch.count '\n' := List.count_pos_iff.2 hfeed
    simp only [Position.across_line, Position.along] at hline
    omega
  · intro hnone
    exact (Position.across_eq_along lx.here hnone).symm

/-- A literal that does not end crosses lines if it holds a line feed. -/
theorem Placed.crossesLines_iff {literal after : List Char} (h : Placed text lx)
    (hahead : lx.ahead = literal ++ after) :
    (Reply.error (.unterminatedString lx.here)).CrossesLines text (lx.here.along literal) ↔
      '\n' ∈ literal := by
  obtain ⟨before, htext, -, hbefore⟩ := h.exists_before
  have hoffset : (lx.here.along literal).offset = byteLength (before ++ literal) := by
    rw [byteLength_append, ← hbefore]
    rfl
  constructor
  · rintro ⟨p, before', literal', after', hreply, htext', hp, hhere, hfeed⟩
    cases hreply
    -- the literal is what stands between its two offsets
    have hsame : before' = before :=
      before_eq_of_byteLength (htext'.symm.trans htext) (hp.symm.trans hbefore)
    subst hsame
    have hrest : literal' ++ after' = literal ++ after :=
      List.append_cancel_left (htext'.symm.trans (htext.trans (congrArg (before' ++ ·) hahead)))
    have hlength : byteLength (before' ++ literal') = byteLength (before' ++ literal) :=
      hhere.symm.trans hoffset
    rw [byteLength_append, byteLength_append, Nat.add_left_cancel_iff] at hlength
    rwa [before_eq_of_byteLength hrest hlength] at hfeed
  · intro hfeed
    exact ⟨_, before, literal, after, rfl, by rw [htext, hahead], hbefore, hoffset, hfeed⟩

/-- A reader at its place is canonical, and no literal crossed lines. -/
theorem Placed.here_iff {reply : Reply} (h : Placed text rest)
    (hreply : ∀ p, reply ≠ .error (.unterminatedString p)) :
    rest.here.Canonical text ↔ ¬ reply.CrossesLines text rest.here := by
  refine iff_of_true h.canonical ?_
  rintro ⟨p, -, -, -, hunterminated, -⟩
  exact hreply p hunterminated

end

/-- An error is at a canonical position, behind which the reader stands at one unless it is a literal
without an end that crosses lines. -/
theorem error_placed {text : List Char} {lx rest : Lexer} {e : LexError} (h : Placed text lx)
    (hnext : lx.next = (.error e, rest)) :
    (Reply.error e).Canonical text ∧
      (rest.here.Canonical text ↔ ¬ (Reply.error e).CrossesLines text rest.here) := by
  rcases next_error hnext with ⟨gap, hmoves, hp, hother⟩ | ⟨gap, mid, literal, hmoves, rfl, -, hahead, hhere⟩
  · have hrest := h.moves hmoves
    refine ⟨⟨_, hp, hrest.canonical⟩, hrest.here_iff fun p hunterminated => ?_⟩
    exact hother p (Reply.error.inj hunterminated)
  · have hmid := h.moves hmoves
    refine ⟨⟨_, rfl, hmid.canonical⟩, ?_⟩
    rw [hhere, hmid.along_iff hahead, hmid.crossesLines_iff hahead]

/-- **One call answers with canonical positions,** and leaves the reader at one unless a literal crosses
lines. -/
theorem call_placed {text : List Char} {lx rest : Lexer} {c : Call} {reply : Reply}
    (h : Placed text lx) (hcall : lx.call c = (reply, rest)) :
    reply.Canonical text ∧ (rest.here.Canonical text ↔ ¬ reply.CrossesLines text rest.here) ∧
      ((∀ e, reply ≠ .error e) → Placed text rest) := by
  cases c with
  | token =>
    simp only [call] at hcall
    split at hcall
    · next t rest hnext =>
      cases hcall
      obtain ⟨gap, htakes⟩ := takes_next hnext
      have hrest := h.moves htakes.moves
      have hahead := htakes.moves.ahead
      rw [List.append_assoc] at hahead
      refine ⟨⟨htakes.start ▸ h.across hahead, fun hk => ?_⟩, hrest.here_iff (by simp), fun _ => hrest⟩
      rw [stop_of_next hnext hk]
      exact hrest.canonical
    · next e rest hnext =>
      cases hcall
      obtain ⟨hcanonical, hcrosses⟩ := error_placed h hnext
      exact ⟨hcanonical, hcrosses, fun hne => absurd rfl (hne e)⟩
  | block =>
    simp only [call] at hcall
    split at hcall
    · next raw rest hblock =>
      cases hcall
      obtain ⟨hmoves, hstop, -⟩ := takeIndentedBlock_eq hblock
      have hrest := h.moves hmoves
      refine ⟨⟨?_, hstop ▸ hrest.canonical⟩, hrest.here_iff (by simp), fun _ => hrest⟩
      rw [takeIndentedBlock_start hblock]
      exact h.canonical
    · cases hcall
      exact ⟨trivial, h.here_iff (by simp), fun _ => h⟩
  | upTo close =>
    simp only [call] at hcall
    split at hcall
    · next raw rest huntil =>
      cases hcall
      obtain ⟨hmoves, -⟩ := takeUntil_eq huntil
      have hrest := h.moves hmoves
      have hahead := hmoves.ahead
      rw [List.append_assoc] at hahead
      refine ⟨⟨?_, ?_⟩, hrest.here_iff (by simp), fun _ => hrest⟩
      · rw [takeUntil_start huntil]
        exact h.canonical
      · rw [takeUntil_stop huntil]
        exact h.across hahead
    · cases hcall
      exact ⟨trivial, h.here_iff (by simp), fun _ => h⟩

theorem calls_placed {text : List Char} {lx : Lexer} (h : Placed text lx) (cs : List Call) :
    ∀ step ∈ lx.calls cs, step.1.Canonical text ∧
      (step.2.here.Canonical text ↔ ¬ step.1.CrossesLines text step.2.here) := by
  induction cs generalizing lx with
  | nil => simp [calls]
  | cons c cs ih =>
    intro step hstep
    unfold calls at hstep
    split at hstep
    · next e rest hcall =>
      rw [List.mem_singleton.1 hstep]
      obtain ⟨hreply, hhere, -⟩ := call_placed h hcall
      exact ⟨hreply, hhere⟩
    · next reply rest herror hcall =>
      obtain ⟨hreply, hhere, hrest⟩ := call_placed h hcall
      rcases List.mem_cons.1 hstep with rfl | hlater
      · exact ⟨hreply, hhere⟩
      · exact ih (hrest fun e he => herror e he) step hlater

/-- **The positions in a run of calls are canonical,** up to the place at which an unterminated literal
over several lines leaves the reader. -/
theorem calls_canonical (source : String) (cs : List Call) :
    ∀ step ∈ (ofSource source).calls cs,
      step.1.Canonical (stripMark source.toList) ∧
      (step.2.here.Canonical (stripMark source.toList) ↔
        ¬ step.1.CrossesLines (stripMark source.toList) step.2.here) :=
  calls_placed (placed_ofChars _) cs

/-- A block, text up to a closing sequence, and a literal over two lines that does not end. -/
def openSource : String := "if \u00e9:\n  a\nx = \"\"\"b\n\u00e9"

/-- The calls that lead through it. -/
def openCalls : List Call := [.token, .token, .token, .token, .block, .token, .upTo "=", .token]

theorem openSource_misplaced : ∃ rest : Lexer,
    (.error (.unterminatedString ⟨15, 3, 4⟩), rest) ∈ (ofSource openSource).calls openCalls ∧
      rest.here = ⟨22, 3, 10⟩ ∧ ¬ rest.here.Canonical (stripMark openSource.toList) := by
  let after : Lexer :=
    { behind := openSource.toList.reverse, ahead := [], here := ⟨22, 3, 10⟩, indents := [0],
      depth := 0, atLineStart := false, lineHasContent := true, pendingDedents := 0 }
  have hstep : (.error (.unterminatedString ⟨15, 3, 4⟩), after) ∈
      (ofSource openSource).calls openCalls := by decide +kernel
  refine ⟨after, hstep, rfl, ?_⟩
  rw [(calls_canonical openSource openCalls _ hstep).2, not_not]
  exact ⟨_, "if \u00e9:\n  a\nx = ".toList, "\"\"\"b\n\u00e9".toList, [], rfl, by decide +kernel,
    by decide +kernel, by decide +kernel, by decide +kernel⟩

end Lexer

end Quasiquote
