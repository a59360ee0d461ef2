import Quasiquote.Proofs.Source.Nesting

/-!
# Operators are matched longest first

Whatever a reader has been called for, errors included, an operator that it reads is the longest one
that the text begins with there. The exception is an operator of two characters with a character of
several bytes right behind it: of that one the reader takes the first character only.

## Main Definitions

* `Lexer.after` — the reader behind a list of calls
* `Lexer.Counts` — a reader further on in the same text, with its offset in step

## Main Statements

* `Lexer.call_place` — where a call leaves a reader
* `Lexer.counts_call` — every call keeps the offset in step, an error too
* `Lexer.operator_longest` — which operator a reader reads

## Design Notes

After an error the line and the column of a reader may be off, so that `Lexer.Moves` is lost. Its offset
never is, and that is all that tells where in the source a token stands.
-/

namespace Quasiquote.Lexer

/-! ### Calls that may fail -/

/-- The reader behind a list of calls. It goes on from where an error left it. -/
def after (lx : Lexer) (cs : List Call) : Lexer := cs.foldl (fun lx c => (lx.call c).2) lx

theorem Moves.place_eq {lx rest : Lexer} {text : List Char} (h : lx.Moves text rest) :
    rest.place = (lx.advance text.length).place := by
  simp only [place, advance, h.behind, h.ahead, h.here, List.take_left, List.drop_left]

/-- **A call leaves a reader further on in its source.** What an error takes of a literal that does not end
counts no lines. -/
theorem call_place (lx : Lexer) (c : Call) :
    ∃ m n, (lx.call c).2.place = ((lx.advance m).advanceAlong n).place := by
  have hmoves {text : List Char} {rest : Lexer} (h : lx.Moves text rest) :
      ∃ m n, rest.place = ((lx.advance m).advanceAlong n).place :=
    ⟨text.length, 0, by rw [advanceAlong_zero, h.place_eq]⟩
  cases c with
  | token =>
    simp only [call]
    split
    · next t rest hnext =>
      obtain ⟨gap, htakes⟩ := takes_next hnext
      exact hmoves htakes.moves
    · next e rest hnext =>
      rcases next_error hnext with
        ⟨gap, hgap, -⟩ | ⟨gap, mid, literal, hgap, -, hbehind, hahead, hhere⟩
      · exact hmoves hgap
      · refine ⟨gap.length, literal.length, ?_⟩
        have hplace := hgap.place_eq
        simp only [place, Prod.mk.injEq] at hplace ⊢
        obtain ⟨hmid, hmid', hmid''⟩ := hplace
        simp only [advanceAlong, ← hmid, ← hmid', ← hmid'', hbehind, hahead, hhere, List.take_left,
          List.drop_left, and_self]
  | block =>
    simp only [call]
    split
    · next raw rest hblock => exact hmoves (takeIndentedBlock_eq hblock).1
    · exact hmoves (.refl lx)
  | upTo close =>
    simp only [call]
    split
    · next raw rest huntil => exact hmoves (takeUntil_eq huntil).1
    · exact hmoves (.refl lx)

/-- A reader is further on in the same text, and its offset counts the bytes between. -/
def Counts (lx rest : Lexer) : Prop :=
  ∃ text, lx.ahead = text ++ rest.ahead ∧ rest.here.offset = lx.here.offset + byteLength text

theorem Counts.refl (lx : Lexer) : lx.Counts lx := ⟨[], rfl, rfl⟩

theorem Counts.trans {a b c : Lexer} (hab : a.Counts b) (hbc : b.Counts c) : a.Counts c := by
  obtain ⟨first, hfirst, hb⟩ := hab
  obtain ⟨second, hsecond, hc⟩ := hbc
  refine ⟨first ++ second, by rw [hfirst, hsecond, List.append_assoc], ?_⟩
  rw [hc, hb, byteLength_append, Nat.add_assoc]

theorem Counts.congr {lx rest rest' : Lexer} (h : lx.Counts rest) (hplace : rest'.place = rest.place) :
    lx.Counts rest' := by
  simp only [place, Prod.mk.injEq] at hplace
  obtain ⟨text, hahead, hoffset⟩ := h
  exact ⟨text, by rw [hplace.2.1, hahead], by rw [hplace.2.2, hoffset]⟩

theorem counts_advance (lx : Lexer) (n : Nat) : lx.Counts (lx.advance n) :=
  ⟨lx.ahead.take n, (List.take_append_drop n lx.ahead).symm, Position.across_offset _ _⟩

theorem counts_advanceAlong (lx : Lexer) (n : Nat) : lx.Counts (lx.advanceAlong n) :=
  ⟨lx.ahead.take n, (List.take_append_drop n lx.ahead).symm, rfl⟩

/-- **Every call keeps the offset in step.** An error does so too, even behind a literal over several
lines that never ends. -/
theorem counts_call (lx : Lexer) (c : Call) : lx.Counts (lx.call c).2 := by
  obtain ⟨m, n, hplace⟩ := lx.call_place c
  exact ((lx.counts_advance m).trans (counts_advanceAlong _ n)).congr hplace

theorem counts_after (lx : Lexer) (cs : List Call) : lx.Counts (lx.after cs) := by
  induction cs generalizing lx with
  | nil => exact .refl lx
  | cons c cs ih => exact (counts_call lx c).trans (ih (lx.call c).2)

/-! ### The operators that are read -/

/-- **Operators are matched longest first.** Wherever a reader has been brought by any calls, failed
ones included, an operator that it reads is one of the table that the source begins with there. It is
the longest such unless the window hides that one; then it is the first character of it. -/
theorem operator_longest (source : String) (cs : List Call) {t : Token} {rest : Lexer}
    (h : ((ofSource source).after cs).next = (.ok t, rest)) (hk : t.kind = .operator) :
    ∃ before text, stripMark source.toList = before ++ text ∧ t.start.offset = byteLength before ∧
      t.text.toList ∈ Scan.operators ∧ t.text.toList <+: text ∧
      (Scan.IsLongestOperator t.text.toList text ↔ ¬ Scan.HidesOperator text) ∧
      (Scan.HidesOperator text →
        Scan.IsLongestOperator (text.take 2) text ∧ t.text.toList = text.take 1) := by
  obtain ⟨-, htakes, hlexeme, -⟩ := next_of_word h (by rw [hk]; rfl)
  rw [hk] at hlexeme
  obtain ⟨before, hsource, hoffset⟩ := counts_after (ofSource source) cs
  generalize (ofSource source).after cs = lx at htakes hsource hoffset
  generalize lx.ahead.take (Scan.blankLength lx.ahead) = gap at htakes
  -- what is found in the text is the token
  have hlength := Scan.operatorLength_of_lexeme hlexeme
  have hpos : 0 < Scan.operatorLength (t.text.toList ++ rest.ahead) :=
    hlength ▸ (Scan.lexeme_length hlexeme).1
  have htext : t.text.toList =
      (t.text.toList ++ rest.ahead).take (Scan.operatorLength (t.text.toList ++ rest.ahead)) := by
    rw [hlength, List.take_left]
  have hahead : lx.ahead = gap ++ (t.text.toList ++ rest.ahead) := by
    rw [htakes.moves.ahead, List.append_assoc]
  refine ⟨before ++ gap, t.text.toList ++ rest.ahead, ?_, ?_, ?_, List.prefix_append _ _, ?_,
    fun hhides => ⟨hhides.isLongestOperator, ?_⟩⟩
  · rw [List.append_assoc, ← hahead]
    exact hsource
  · rw [htakes.start, Position.across_offset, hoffset, byteLength_append]
    exact congrArg (· + byteLength gap) (Nat.zero_add _)
  · exact htext ▸ Scan.take_operatorLength_mem hpos
  · have hlongest := Scan.isLongestOperator_iff hpos
    rwa [← htext] at hlongest
  · rw [hhides.operatorLength] at htext
    exact htext

/-- The reader behind the base of a power whose exponent is a name outside ASCII. -/
def atPower : Lexer := (ofSource "x**\u00e9").after [.token]

/-- The power is read as a product. -/
theorem atPower_short :
    ∃ t rest, atPower.next = (.ok t, rest) ∧ t.start.offset = 1 ∧ t.text.toList = ['*'] ∧
      Scan.IsLongestOperator ['*', '*'] ['*', '*', '\u00e9'] ∧
      ¬ Scan.IsLongestOperator t.text.toList ['*', '*', '\u00e9'] := by
  let t : Token := ⟨.operator, "*", ⟨1, 1, 1⟩, ⟨2, 1, 2⟩, "x**\u00e9"⟩
  have hnext : atPower.next = (.ok t, (atPower.call .token).2) := by decide +kernel
  obtain ⟨before, text, hsource, hoffset, -, -, hlongest, hhidden⟩ :=
    operator_longest "x**\u00e9" [.token] hnext rfl
  have hsplit : before ++ text = ['x'] ++ ['*', '*', '\u00e9'] := hsource.symm
  have hbefore : before = ['x'] := before_eq_of_byteLength hsplit hoffset.symm
  subst hbefore
  obtain rfl : text = ['*', '*', '\u00e9'] := List.append_cancel_left hsplit
  have hhides : Scan.HidesOperator ['*', '*', '\u00e9'] := ⟨by decide, '\u00e9', rfl, by decide⟩
  exact ⟨t, _, hnext, rfl, by decide, (hhidden hhides).1, fun h => hlongest.1 h hhides⟩

end Quasiquote.Lexer
