import Mathlib.Logic.Function.Iterate
import Quasiquote.Proofs.Source.Nesting

/-!
# Logical lines are measured

Outside brackets, the first token of a logical line is read with the width of the line on top of the open
levels, and a line without a token leaves the levels alone. Both have an exception. A carriage return that
ends no line, right behind the indentation or behind a comment there, hides the indentation of the token
behind it; and a line that is joined to the next one right behind its indentation is measured even if no
token comes.

## Main Definitions

* `Scan.HidesIndent`, `Scan.JoinsIndent` — the two exceptions
* `Lexer.Idle` — a reader of a line that has no token yet
* `Lexer.Finds` — a reader, the first token that is no indent, dedent or comment, and what becomes of it
* `Lexer.FirstOnLine` — such a token of a line outside brackets

## Main Statements

* `Lexer.Idle.next` — what an idle reader can read
* `Lexer.lines_measured` — the open levels at the first token of a line

## Design Notes

Whether a line is measured is decided by the character behind its indentation; whether it has a token, only
by reading on. The two are brought together in `Scan.nothingBefore_of_skipped`: a line that is passed over
holds nothing before its end, or hides its indentation.
-/

namespace Quasiquote

/-- The kinds of tokens that may stand before the first token of a line. -/
def Token.Kind.isLayout (kind : Token.Kind) : Bool := kind ∈ [.indent, .dedent, .comment]

theorem isLayout_of_isWord {kind : Token.Kind} (h : kind.isWord = true) : kind.isLayout = false := by
  cases kind <;> first | rfl | cases h

namespace Scan

/-! ### Lines that are passed over -/

/-- A line holds nothing but its indentation, and perhaps a comment, before `more`. -/
def NothingBefore (line more : List Char) : Prop :=
  ∃ gap comment, line = gap ++ (comment ++ more) ∧ (∀ c ∈ gap, isGap c = true) ∧
    (comment = [] ∨ comment.head? = some '#') ∧ ∀ c ∈ comment, endsLine c = false

/-- Where a line ends: at a line break, or with the text. -/
def EndsHere (more : List Char) : Prop := more = [] ∨ 0 < breakLength more

theorem endsLine_of_breakLength {text : List Char} (h : 0 < breakLength text) :
    ∀ c ∈ text.head?, endsLine c = true := by
  unfold breakLength at h
  split at h
  · simp [endsLine]
  · simp [endsLine]
  · simp at h

/-- **A line that hides its indentation:** behind it, or behind a comment there, stands a carriage return
that ends no line. -/
def HidesIndent (line : List Char) : Prop :=
  ∃ more, NothingBefore line ('\r' :: more) ∧ more.head? ≠ some '\n'

/-- **A line that is joined to the next one** right behind its indentation. -/
def JoinsIndent (line : List Char) : Prop :=
  ∃ gap more, line = gap ++ '\\' :: more ∧ (∀ c ∈ gap, isGap c = true) ∧ 0 < breakLength more

/-- Whether a line is passed over when indentation is measured. -/
def IsSkipped (line : List Char) : Prop := isBlankLine line = true ∨ isCommentLine line = true

/-- The character behind the indentation. -/
theorem afterIndent_gap {gap : List Char} (hgap : ∀ c ∈ gap, isGap c = true) {c : Char}
    (hc : isGap c = false) (rest : List Char) : afterIndent (gap ++ c :: rest) = some c := by
  rw [afterIndent, List.dropWhile_append_of_pos hgap, List.dropWhile_cons, hc]
  rfl

theorem HidesIndent.isSkipped {line : List Char} (h : HidesIndent line) : IsSkipped line := by
  obtain ⟨more, ⟨gap, comment, rfl, hgap, hcomment, -⟩, -⟩ := h
  cases comment with
  | nil =>
    left
    rw [isBlankLine, List.nil_append, afterIndent_gap hgap (by decide)]
    rfl
  | cons c comment =>
    right
    obtain rfl : c = '#' := by simpa using hcomment
    rw [isCommentLine, List.cons_append, afterIndent_gap hgap (by decide)]
    rfl

theorem JoinsIndent.not_isSkipped {line : List Char} (h : JoinsIndent line) : ¬ IsSkipped line := by
  obtain ⟨gap, more, rfl, hgap, -⟩ := h
  rw [IsSkipped, isBlankLine, isCommentLine, afterIndent_gap hgap (by decide)]
  decide

/-- The end of a comment is the end of its line, or a carriage return that ends none. -/
theorem endsHere_or {more : List Char} (h : ∀ c ∈ more.head?, endsLine c = true) :
    EndsHere more ∨ ∃ rest, more = '\r' :: rest ∧ rest.head? ≠ some '\n' := by
  rcases more with _ | ⟨c, rest⟩
  · exact .inl (.inl rfl)
  · by_cases hreturn : c = '\r'
    · subst hreturn
      by_cases hfeed : rest.head? = some '\n'
      · obtain ⟨rest, rfl⟩ := List.head?_eq_some_iff.1 hfeed
        exact .inl (.inr Nat.two_pos)
      · exact .inr ⟨rest, rfl, hfeed⟩
    · obtain rfl : c = '\n' := by simpa [endsLine, hreturn] using h c rfl
      exact .inl (.inr Nat.one_pos)

/-- **A line that is passed over holds nothing before its end, or hides its indentation,** unless a NUL
character ends it. -/
theorem nothingBefore_of_skipped {line : List Char} (h : IsSkipped line) :
    (∃ more, NothingBefore line more ∧ EndsHere more) ∨ HidesIndent line ∨
      afterIndent line = some '\x00' := by
  have hgap : ∀ c ∈ line.takeWhile isGap, isGap c = true := fun c hc =>
    List.all_eq_true.1 List.all_takeWhile c hc
  have hline : line = line.takeWhile isGap ++ line.dropWhile isGap :=
    List.takeWhile_append_dropWhile.symm
  -- behind the indentation, and a comment if there is one, the line ends or is hidden
  have hends (comment more : List Char) (hsplit : line.dropWhile isGap = comment ++ more)
      (hcomment : comment = [] ∨ comment.head? = some '#')
      (hplain : ∀ c ∈ comment, endsLine c = false) (hmore : ∀ c ∈ more.head?, endsLine c = true) :
      (∃ more, NothingBefore line more ∧ EndsHere more) ∨ HidesIndent line := by
    have hbefore : NothingBefore line more := ⟨_, comment, hsplit ▸ hline, hgap, hcomment, hplain⟩
    rcases endsHere_or hmore with hend | ⟨rest, rfl, hlone⟩
    · exact .inl ⟨more, hbefore, hend⟩
    · exact .inr ⟨rest, hbefore, hlone⟩
  rcases h with hblank | hcomment
  · unfold isBlankLine at hblank
    split at hblank
    · next hnone =>
      have hnil : line.dropWhile isGap = [] := List.head?_eq_none_iff.1 hnone
      exact (hends [] [] hnil (.inl rfl) (by simp) (by simp)).imp_right .inl
    · next c hsome =>
      rw [Bool.or_eq_true, beq_iff_eq] at hblank
      rcases hblank with hend | rfl
      · refine (hends [] _ rfl (.inl rfl) (by simp) fun d hd => ?_).imp_right .inl
        obtain rfl : c = d := Option.some.inj (hsome.symm.trans hd)
        exact hend
      · exact .inr (.inr hsome)
  · have hhead : (line.dropWhile isGap).head? = some '#' := by
      simpa [isCommentLine, afterIndent] using hcomment
    obtain ⟨rest, hrest⟩ := List.head?_eq_some_iff.1 hhead
    refine (hends _ _ (List.takeWhile_append_dropWhile (p := fun c => !endsLine c)).symm
      (.inr ?_) (fun c hc => ?_) fun c hc => ?_).imp_right .inl
    · rw [hrest]
      rfl
    · simpa using List.all_eq_true.1 List.all_takeWhile c hc
    · have hnot := List.head?_dropWhile_not (fun c => !endsLine c) (line.dropWhile isGap)
      rw [hc] at hnot
      simpa using hnot

/-- Before the end of such a line there are only blanks, or the comment is next. -/
theorem NothingBefore.drop_blanks {line more : List Char} (h : NothingBefore line more)
    (hmore : EndsHere more) :
    line.drop (blankLength line) = more ∨
      ∃ comment, line.drop (blankLength line) = '#' :: (comment ++ more) ∧
        ∀ c ∈ comment, endsLine c = false := by
  obtain ⟨gap, comment, rfl, hgap, hcomment, hplain⟩ := h
  cases comment with
  | nil =>
    left
    have hnone : blankLength more = 0 := by
      rcases hmore with rfl | hbreak
      · rfl
      · unfold breakLength at hbreak
        split at hbreak
        · rfl
        · rfl
        · omega
    rw [List.nil_append, Lexer.blankLength_gap hgap hnone, List.drop_left]
  | cons c comment =>
    right
    obtain rfl : c = '#' := by simpa using hcomment
    refine ⟨comment, ?_, fun d hd => hplain d (List.mem_cons_of_mem _ hd)⟩
    have hnone : blankLength ('#' :: comment ++ more) = 0 := rfl
    rw [Lexer.blankLength_gap hgap hnone, List.drop_left]
    rfl

/-- What stands behind the indentation of a line that is neither passed over nor joined. -/
theorem drop_blanks_of_measured {gap line : List Char} (hgap : ∀ c ∈ gap, isGap c = true)
    (hmeasured : ¬ IsSkipped (gap ++ line)) (hjoins : ¬ JoinsIndent (gap ++ line)) :
    ∃ c text, line.drop (blankLength line) = c :: text ∧ c ≠ '#' ∧ endsLine c = false := by
  have hsplit : line = line.takeWhile isGap ++ line.dropWhile isGap :=
    List.takeWhile_append_dropWhile.symm
  have hgaps : ∀ c ∈ line.takeWhile isGap, isGap c = true := fun c hc =>
    List.all_eq_true.1 List.all_takeWhile c hc
  have hall : ∀ c ∈ gap ++ line.takeWhile isGap, isGap c = true := fun c hc =>
    (List.mem_append.1 hc).elim (hgap c) (hgaps c)
  have hafter : afterIndent (gap ++ line) = (line.dropWhile isGap).head? := by
    rw [afterIndent, List.dropWhile_append_of_pos hgap]
  rw [IsSkipped, isBlankLine, isCommentLine, hafter] at hmeasured
  cases htail : line.dropWhile isGap with
  | nil => simp [htail] at hmeasured
  | cons c text =>
    rw [htail] at hmeasured hsplit
    simp only [List.head?_cons, Bool.or_eq_true, beq_iff_eq, Option.some.injEq, not_or] at hmeasured
    obtain ⟨⟨hend, -⟩, hcomment⟩ := hmeasured
    have hend : endsLine c = false := by simpa using hend
    refine ⟨c, text, ?_, hcomment, hend⟩
    have hc : isGap c = false := by
      have hnot := List.head?_dropWhile_not isGap line
      simpa [htail] using hnot
    have hnone : blankLength (c :: text) = 0 := by
      -- blanks could only go on with a joined line
      have hjoin (more : List Char) (htext : c :: text = '\\' :: more) (hbreak : 0 < breakLength more) :
          False := by
        refine hjoins ⟨gap ++ line.takeWhile isGap, more, ?_, hall, hbreak⟩
        rw [List.append_assoc, ← htext, ← hsplit]
      unfold blankLength
      split
      · next heq => exact (hjoin _ heq Nat.one_pos).elim
      · next heq => exact (hjoin _ heq Nat.two_pos).elim
      · rfl
      · next heq =>
        obtain rfl := (List.cons.inj heq).1
        have hreturn : c ≠ '\r' := by
          rintro rfl
          cases hend
        rw [hc, beq_false_of_ne hreturn]
        rfl
      · rfl
    rw [hsplit, Lexer.blankLength_gap hgaps hnone, List.drop_left]

end Scan

namespace Lexer

open Scan

/-! ### A line that has no token yet -/

/-- A reader of a line that has no token yet. Its indentation has been dealt with. -/
structure Idle (lx : Lexer) : Prop where
  started : lx.atLineStart = false
  empty : lx.lineHasContent = false

/-- **What an idle reader can read.** -/
inductive Idles (lx : Lexer) (t : Token) (rest : Lexer) : Prop
  /-- A dedent that was due. -/
  | due : t.kind = .dedent → Idle rest → rest.ahead = lx.ahead → rest.indents = lx.indents →
      Idles lx t rest
  /-- The end of the text closes a level. -/
  | closes : t.kind = .dedent → Idle rest → lx.pastBlanks.ahead = [] → rest.ahead = [] →
      Idles lx t rest
  | ends : t.kind = .endMarker → lx.pastBlanks.ahead = [] → Idles lx t rest
  | comment {text : List Char} : t.kind = .comment → Idle rest → lx.pastBlanks.ahead = '#' :: text →
      rest.ahead = text.dropWhile (fun c => !endsLine c) → rest.indents = lx.indents → Idles lx t rest
  | lineBreak : t.kind = .lineBreak → 0 < breakLength lx.pastBlanks.ahead →
      rest.indents = lx.indents → Idles lx t rest
  | word {c : Char} {text : List Char} : t.kind.isWord = true → lx.pastBlanks.ahead = c :: text →
      (lexeme (c :: text)).isSome → rest.indents = lx.indents → Idles lx t rest

/-- **An idle reader reads in one of these ways.** It reads no indent, and ends no logical line. -/
theorem Idle.next {lx rest : Lexer} {t : Token} (h : lx.Idle) (hnext : lx.next = (.ok t, rest)) :
    Idles lx t rest := by
  obtain ⟨hstart, hempty⟩ := h
  rcases lx.next_cases with hpending | ⟨-, hstart', -⟩ | hat
  · rw [next_of_pending hpending] at hnext
    cases hnext
    exact .due rfl ⟨hstart, hempty⟩ rfl rfl
  · rw [hstart] at hstart'
    cases hstart'
  · rw [next_of_atToken hat] at hnext
    rcases lineToken_kinds hnext with ⟨-, hnil, hend⟩ | ⟨hk, ⟨text, hcons⟩, hcomment⟩ |
      ⟨-, hpos, hbreak⟩ | ⟨hk, c, text, kind, n, hcons, hlexeme, hstep⟩
    · rcases endOfSource_cases hend with ⟨hcontent, -⟩ | ⟨-, -, rfl, rfl⟩ | ⟨-, -, rfl, rfl⟩
      · have hnone : lx.onLine.pastBlanks.lineHasContent = false := hempty
        rw [hnone] at hcontent
        cases hcontent
      · exact .closes rfl ⟨rfl, hempty⟩ hnil hnil
      · exact .ends rfl hnil
    · cases hcomment
      refine .comment hk ⟨rfl, hempty⟩ hcons ?_ rfl
      show lx.onLine.pastBlanks.ahead.drop _ = _
      rw [drop_length_takeWhile, hcons]
      rfl
    · cases hbreak
      have hnone : lx.onLine.pastBlanks.lineHasContent = false := hempty
      refine .lineBreak ?_ hpos rfl
      simp [token, hnone]
    · cases hstep
      exact .word hk hcons (by rw [hlexeme]; rfl) rfl

/-! ### The first token of a line -/

/-- A reader, the first token that is no indent, dedent or comment, and the reader behind that token. -/
inductive Finds : Lexer → Token → Lexer → Prop
  | here {lx rest : Lexer} {t : Token} : lx.next = (.ok t, rest) → t.kind.isLayout = false →
      Finds lx t rest
  | later {lx mid rest : Lexer} {s t : Token} : lx.next = (.ok s, mid) → s.kind.isLayout = true →
      Finds mid t rest → Finds lx t rest

/-- A reader of a line that has no token, with nothing before the line's end `more`. -/
structure Spent (lx : Lexer) (more : List Char) : Prop where
  idle : lx.Idle
  nothing : NothingBefore lx.ahead more
  ends : EndsHere more

/-- At the end of a text there is nothing to read. -/
theorem Idle.spent {lx : Lexer} (h : lx.Idle) (hnil : lx.ahead = []) : lx.Spent [] :=
  ⟨h, ⟨[], [], hnil, by simp, .inl rfl, by simp⟩, .inl rfl⟩

/-- A reader of such a line reads dedents and comments up to the line's end. -/
theorem Spent.next {lx rest : Lexer} {t : Token} {more : List Char} (h : lx.Spent more)
    (hnext : lx.next = (.ok t, rest)) :
    (t.kind.isLayout = true ∧ rest.Spent more) ∨ t.kind = .endMarker ∨
      (t.kind = .lineBreak ∧ more ≠ []) := by
  have hblanks : lx.pastBlanks.ahead = more ∨ ∃ comment, lx.pastBlanks.ahead = '#' :: (comment ++ more) ∧
      ∀ c ∈ comment, endsLine c = false := h.nothing.drop_blanks h.ends
  have hhead : ∀ c ∈ more.head?, endsLine c = true := by
    rcases h.ends with rfl | hbreak
    · simp
    · exact endsLine_of_breakLength hbreak
  cases h.idle.next hnext with
  | due hk hidle hahead => exact .inl ⟨by rw [hk]; rfl, hidle, hahead ▸ h.nothing, h.ends⟩
  | closes hk hidle hnil hahead =>
    rw [hnil] at hblanks
    obtain rfl : [] = more := by simpa using hblanks
    exact .inl ⟨by rw [hk]; rfl, hidle.spent hahead⟩
  | ends hk => exact .inr (.inl hk)
  | @comment text hk hidle hcons hahead =>
    rw [hcons] at hblanks
    rcases hblanks with hmore | ⟨comment, hcomment, hplain⟩
    · -- no line ends with a comment mark
      rw [← hmore] at hhead
      exact absurd (hhead '#' rfl) (by decide)
    · obtain rfl : text = comment ++ more := (List.cons.inj hcomment).2
      have hrest : rest.ahead = more := by
        rw [hahead, List.dropWhile_append_of_pos (by simpa using hplain)]
        cases more with
        | nil => rfl
        | cons c more => simp [hhead c rfl]
      exact .inl ⟨by rw [hk]; rfl, hidle, ⟨[], [], hrest, by simp, .inl rfl, by simp⟩, h.ends⟩
  | lineBreak hk hpos =>
    refine .inr (.inr ⟨hk, ?_⟩)
    rintro rfl
    rcases hblanks with hnil | ⟨comment, hcomment, -⟩
    · rw [hnil] at hpos
      simp [breakLength] at hpos
    · rw [hcomment] at hpos
      simp [breakLength] at hpos
  | @word c text hk hcons hlexeme =>
    rw [hcons] at hblanks
    obtain ⟨⟨kind, n⟩, hlexeme⟩ := Option.isSome_iff_exists.1 hlexeme
    have hstarts := startsLexeme_of_lexeme hlexeme
    rcases hblanks with hmore | ⟨comment, hcomment, -⟩
    · have hend := hhead c (by rw [← hmore]; rfl)
      rw [endsLine, Bool.or_eq_true, beq_iff_eq, beq_iff_eq] at hend
      rcases hend with rfl | rfl
      · exact absurd hstarts (by decide)
      · exact absurd hstarts (by decide)
    · obtain rfl : c = '#' := (List.cons.inj hcomment).1
      exact absurd hstarts (by decide)

/-- **A line with nothing before its end has no word.** -/
theorem Spent.finds {lx rest : Lexer} {t : Token} {more : List Char} (h : lx.Spent more)
    (hfinds : lx.Finds t rest) : t.kind = .endMarker ∨ (t.kind = .lineBreak ∧ more ≠ []) := by
  induction hfinds with
  | here hnext hk =>
    refine (h.next hnext).resolve_left fun hlayout => ?_
    rw [hlayout.1] at hk
    cases hk
  | later hnext hk _ ih =>
    rcases h.next hnext with ⟨-, hrest⟩ | hend | ⟨hend, -⟩
    · exact ih hrest
    · simp [Token.Kind.isLayout, hend] at hk
    · simp [Token.Kind.isLayout, hend] at hk

/-- **An idle reader keeps its levels** up to the first token of its line, unless the text ends. -/
theorem Idle.finds {lx rest : Lexer} {t : Token} (h : lx.Idle) (hfinds : lx.Finds t rest) :
    t.kind = .endMarker ∨
      (rest.indents = lx.indents ∧ (t.kind.isWord = true ∨ t.kind = .lineBreak)) := by
  induction hfinds with
  | here hnext hk =>
    cases h.next hnext with
    | due hk' => simp [Token.Kind.isLayout, hk'] at hk
    | closes hk' => simp [Token.Kind.isLayout, hk'] at hk
    | ends hk' => exact .inl hk'
    | comment hk' => simp [Token.Kind.isLayout, hk'] at hk
    | lineBreak hk' _ hindents => exact .inr ⟨hindents, .inr hk'⟩
    | word hk' _ _ hindents => exact .inr ⟨hindents, .inl hk'⟩
  | later hnext hk hlater ih =>
    cases h.next hnext with
    | due _ hidle _ hindents => exact hindents ▸ ih hidle
    | closes _ hidle _ hahead =>
      have hend := (hidle.spent hahead).finds hlater
      exact .inl (hend.resolve_right fun hbreak => hbreak.2 rfl)
    | ends hk' => simp [Token.Kind.isLayout, hk'] at hk
    | comment _ hidle _ _ hindents => exact hindents ▸ ih hidle
    | lineBreak hk' => simp [Token.Kind.isLayout, hk'] at hk
    | word hk' => simp [isLayout_of_isWord hk'] at hk

/-- Where neither a comment nor the line's end is next, only a dedent that is due can come before a word. -/
theorem Idle.next_before_word {lx rest : Lexer} {t : Token} {c : Char} {text : List Char} (h : lx.Idle)
    (hcons : lx.pastBlanks.ahead = c :: text) (hcomment : c ≠ '#') (hc : endsLine c = false)
    (hnext : lx.next = (.ok t, rest)) :
    (t.kind = .dedent ∧ rest.Idle ∧ rest.pastBlanks.ahead = c :: text) ∨
      (t.kind.isWord = true ∧ startsLexeme c = true) := by
  cases h.next hnext with
  | due hk hidle hahead =>
    refine .inl ⟨hk, hidle, ?_⟩
    show rest.ahead.drop (blankLength rest.ahead) = _
    rw [hahead]
    exact hcons
  | closes _ _ hnil => simp [hcons] at hnil
  | ends _ hnil => simp [hcons] at hnil
  | comment _ _ hmark =>
    rw [hcons] at hmark
    exact absurd (List.cons.inj hmark).1 hcomment
  | lineBreak _ hpos =>
    rw [hcons] at hpos
    exact absurd (endsLine_of_breakLength hpos c rfl) (by simp [hc])
  | word hk hword hlexeme =>
    rw [hcons] at hword
    obtain ⟨rfl, rfl⟩ := List.cons.inj hword
    obtain ⟨⟨kind, n⟩, hlexeme⟩ := Option.isSome_iff_exists.1 hlexeme
    exact .inr ⟨hk, startsLexeme_of_lexeme hlexeme⟩

/-- **Where neither a comment nor the line's end is next, a word is.** -/
theorem Idle.finds_word {lx rest : Lexer} {t : Token} {c : Char} {text : List Char} (h : lx.Idle)
    (hcons : lx.pastBlanks.ahead = c :: text) (hcomment : c ≠ '#') (hc : endsLine c = false)
    (hfinds : lx.Finds t rest) : t.kind.isWord = true ∧ startsLexeme c = true := by
  induction hfinds with
  | here hnext hk =>
    rcases h.next_before_word hcons hcomment hc hnext with ⟨hk', -⟩ | hword
    · simp [Token.Kind.isLayout, hk'] at hk
    · exact hword
  | later hnext hk _ ih =>
    rcases h.next_before_word hcons hcomment hc hnext with ⟨-, hidle, hahead⟩ | ⟨hword, -⟩
    · exact ih hidle hahead
    · simp [isLayout_of_isWord hword] at hk

/-- **A line that is passed over and has a word hides its indentation.** -/
theorem Idle.hidesIndent {lx rest : Lexer} {t : Token} (h : lx.Idle) (hfinds : lx.Finds t rest)
    (hword : t.kind.isWord = true) (hskipped : IsSkipped lx.ahead) : HidesIndent lx.ahead := by
  rcases nothingBefore_of_skipped hskipped with ⟨more, hnothing, hmore⟩ | hhides | hnul
  · have hspent : lx.Spent more := ⟨h, hnothing, hmore⟩
    rcases hspent.finds hfinds with hk | ⟨hk, -⟩
    · simp [Token.Kind.isWord, hk] at hword
    · simp [Token.Kind.isWord, hk] at hword
  · exact hhides
  · -- no token begins with a NUL character
    obtain ⟨text, htext⟩ := List.head?_eq_some_iff.1 hnul
    have hsplit : lx.ahead = lx.ahead.takeWhile isGap ++ '\x00' :: text := by
      rw [← htext, List.takeWhile_append_dropWhile]
    have hcons : lx.pastBlanks.ahead = '\x00' :: text := by
      show lx.ahead.drop (blankLength lx.ahead) = _
      rw [hsplit, blankLength_gap (fun c hc => List.all_eq_true.1 List.all_takeWhile c hc) rfl,
        List.drop_left]
    have hstarts := (h.finds_word hcons (by decide) (by decide) hfinds).2
    exact absurd hstarts (by decide)

/-! ### The beginning of a line -/

/-- A reader at the beginning of a line outside brackets. -/
structure AtLine (lx : Lexer) : Prop where
  started : lx.atLineStart = true
  empty : lx.lineHasContent = false
  outside : lx.depth = 0
  settled : lx.pendingDedents = 0

/-- Where a line's indentation gives no token, the reader may as well be behind it. -/
theorem AtLine.next_onLine {lx : Lexer} (h : lx.AtLine) (hi : lx.onLine.indentation = none) :
    lx.onLine.next = lx.next := by
  have hat : lx.AtToken := ⟨h.settled, fun _ _ => hi⟩
  have hat' : lx.onLine.AtToken := ⟨h.settled, fun hfalse => by cases hfalse⟩
  rw [next_of_atToken hat, next_of_atToken hat']
  rfl

/-- Where indentation gives a token, the line is measured. -/
theorem not_isSkipped_of_indentation {lx : Lexer} {step : Step} (h : lx.indentation = some step) :
    ¬ IsSkipped lx.ahead := by
  intro hskipped
  rw [(indentation_eq_none_iff lx).2 (or_assoc.1 (.inl hskipped))] at h
  cases h

theorem ahead_eq_gap_append (lx : Lexer) :
    lx.ahead = lx.ahead.takeWhile isGap ++ lx.ahead.drop lx.gapLength := by
  rw [gapLength, drop_length_takeWhile, List.takeWhile_append_dropWhile]

/-- **A line is measured unless it is passed over.** Behind its indentation the reader is idle. -/
theorem AtLine.finds {lx rest : Lexer} {t : Token} (h : lx.AtLine) (hfinds : lx.Finds t rest) :
    ∃ mid, mid.Idle ∧ mid.Finds t rest ∧
      (∃ gap, lx.ahead = gap ++ mid.ahead ∧ ∀ c ∈ gap, isGap c = true) ∧
      (IsSkipped lx.ahead → mid = lx.onLine) ∧
      (¬ IsSkipped lx.ahead → mid.indent = indentWidth lx.ahead) := by
  have hline := h
  obtain ⟨hstart, hempty, houtside, hsettled⟩ := h
  have hidle : lx.onLine.Idle := ⟨rfl, hempty⟩
  cases hi : lx.onLine.indentation with
  | none =>
    have hnext := hline.next_onLine hi
    refine ⟨lx.onLine, hidle, ?_, ⟨[], rfl, by simp⟩, fun _ => rfl, fun hmeasured => ?_⟩
    · cases hfinds with
      | here hfirst hk => exact .here (hnext.trans hfirst) hk
      | later hfirst hk hlater => exact .later (hnext.trans hfirst) hk hlater
    · rcases (indentation_eq_none_iff _).1 hi with hblank | hcomment | hwidth
      · exact absurd (.inl hblank) hmeasured
      · exact absurd (.inr hcomment) hmeasured
      · exact hwidth.symm
  | some step =>
    have hnext := next_of_indentation hsettled hstart houtside hi
    have hmeasured : ¬ IsSkipped lx.onLine.ahead := not_isSkipped_of_indentation hi
    have hsplit := lx.ahead_eq_gap_append
    have hgaps : ∀ c ∈ lx.ahead.takeWhile isGap, isGap c = true := fun c hc =>
      List.all_eq_true.1 List.all_takeWhile c hc
    have hmid {mid : Lexer} {s : Token} (hstep : lx.onLine.indentation = some (.ok s, mid)) :
        s.kind.isLayout = true ∧ mid.Idle ∧ mid.ahead = lx.ahead.drop lx.gapLength ∧
          mid.indent = indentWidth lx.ahead := by
      rcases indentation_cases hstep with ⟨-, rfl, rfl⟩ | ⟨-, hlevel, rfl, rfl⟩
      · exact ⟨rfl, ⟨rfl, hempty⟩, rfl, rfl⟩
      · exact ⟨rfl, ⟨rfl, hempty⟩, rfl, hlevel⟩
    cases hfinds with
    | here hfirst hk =>
      obtain ⟨hlayout, -⟩ := hmid (hi.trans (congrArg some (hnext.symm.trans hfirst)))
      rw [hlayout] at hk
      cases hk
    | @later _ mid _ s _ hfirst hk hlater =>
      obtain ⟨-, hidle', hahead, hlevel⟩ := hmid (hi.trans (congrArg some (hnext.symm.trans hfirst)))
      exact ⟨mid, hidle', hlater, ⟨_, by rw [hahead]; exact hsplit, hgaps⟩,
        fun hskipped => absurd hskipped hmeasured, fun _ => hlevel⟩

/-- Behind a line break outside brackets a line begins, or the text ends. -/
theorem atLine_of_break {lx rest : Lexer} {t : Token} (h : lx.next = (.ok t, rest))
    (hk : t.kind = .newline ∨ t.kind = .lineBreak) (hdepth : rest.depth = 0) :
    (rest.Idle ∧ rest.ahead = []) ∨ (rest.AtLine ∧ ∃ front, t.text.toList = front ++ ['\n']) := by
  obtain ⟨⟨hsettled, -⟩, hline⟩ := lineToken_of_next h (by rcases hk with hk | hk <;> simp [hk])
  rcases lineToken_kinds hline with ⟨-, hnil, hend⟩ | ⟨hkind, -⟩ | ⟨-, hpos, hbreak⟩ | ⟨hword, -⟩
  · left
    rcases endOfSource_cases hend with ⟨-, -, rfl⟩ | ⟨-, -, rfl, -⟩ | ⟨-, -, rfl, -⟩
    · exact ⟨⟨rfl, rfl⟩, hnil⟩
    · rcases hk with hk | hk <;> cases hk
    · rcases hk with hk | hk <;> cases hk
  · rcases hk with hk | hk <;> simp [hk] at hkind
  · right
    obtain ⟨front, hfront⟩ := break_ends hpos
    cases hbreak
    refine ⟨⟨rfl, ?_, hdepth, hsettled⟩, front, by simpa [token] using hfront⟩
    have houtside : lx.onLine.pastBlanks.depth = 0 := hdepth
    simp [houtside]
  · rcases hk with hk | hk <;> simp [Token.Kind.isWord, hk] at hword

/-! ### Runs of tokens -/

/-- The reader behind `n` tokens. -/
def afterTokens (lx : Lexer) (n : Nat) : Lexer := (fun lx => lx.next.2)^[n] lx

theorem afterTokens_succ {lx mid : Lexer} {r : Except LexError Token} (h : lx.next = (r, mid)) (n : Nat) :
    lx.afterTokens (n + 1) = mid.afterTokens n := by
  simp only [afterTokens, Function.iterate_succ_apply, h]

/-- A token that is read behind others, and the reader behind it. -/
theorem next_afterTokens {lx : Lexer} {n : Nat} {t : Token} (h : (lx.afterTokens n).next.1.toOption = some t) :
    (lx.afterTokens n).next = (.ok t, lx.afterTokens (n + 1)) := by
  refine Prod.ext (toOption_eq_some_iff.1 h) ?_
  rw [afterTokens, afterTokens, Function.iterate_succ_apply']

/-- A reader that emits these tokens, and the reader behind them. -/
inductive Emits : Lexer → List Token → Lexer → Prop
  | nil (lx : Lexer) : Emits lx [] lx
  | cons {lx mid rest : Lexer} {t : Token} {tokens : List Token} : lx.next = (.ok t, mid) →
      Emits mid tokens rest → Emits lx (t :: tokens) rest

theorem emits_append {lx rest : Lexer} {front back : List Token} :
    lx.Emits (front ++ back) rest ↔ ∃ mid, lx.Emits front mid ∧ mid.Emits back rest := by
  induction front generalizing lx with
  | nil =>
    constructor
    · exact fun h => ⟨lx, .nil lx, h⟩
    · rintro ⟨mid, hfront, hback⟩
      cases hfront
      exact hback
  | cons t front ih =>
    constructor
    · rintro (_ | ⟨hnext, hrest⟩)
      obtain ⟨mid, hfront, hback⟩ := ih.1 hrest
      exact ⟨mid, .cons hnext hfront, hback⟩
    · rintro ⟨mid, _ | ⟨hnext, hfront⟩, hback⟩
      exact .cons hnext (ih.2 ⟨mid, hfront, hback⟩)

theorem Emits.eq_afterTokens {lx rest : Lexer} {tokens : List Token} (h : lx.Emits tokens rest) :
    rest = lx.afterTokens tokens.length := by
  induction h with
  | nil => rfl
  | cons hnext _ ih =>
    rw [ih, List.length_cons, afterTokens_succ hnext]

theorem Emits.moves {lx rest : Lexer} {tokens : List Token} (h : lx.Emits tokens rest) :
    ∃ text, lx.Moves text rest := by
  induction h with
  | nil lx => exact ⟨[], .refl lx⟩
  | cons hnext _ ih =>
    obtain ⟨gap, htakes⟩ := takes_next hnext
    obtain ⟨text, hmoves⟩ := ih
    exact ⟨_, htakes.moves.trans hmoves⟩

theorem Emits.reaches {start lx rest : Lexer} {tokens : List Token} (h : lx.Emits tokens rest) :
    ∀ {history}, start.Reaches history lx → start.Reaches (history ++ tokens.map given) rest := by
  induction h with
  | nil => exact fun h => by simpa using h
  | @cons lx mid rest t tokens hnext _ ih =>
    intro history h
    have hmid : start.Reaches (history ++ [given t]) mid :=
      .call h trivial (by simp only [call, hnext]) rfl
    simpa using ih hmid

/-- The tokens of a run are emitted, one behind the other. -/
theorem emits_of_run {lx : Lexer} {front back : List Token} (h : lx.run = (front ++ back, none)) :
    ∃ mid, lx.Emits front mid := by
  induction front generalizing lx with
  | nil => exact ⟨lx, .nil lx⟩
  | cons t front ih =>
    rw [run] at h
    split at h
    · cases h
    · next s mid hnext =>
      split at h
      · -- behind the end marker there are no tokens
        obtain ⟨rfl, hnone⟩ : s = t ∧ front ++ back = [] := by simpa using h
        obtain ⟨rfl, -⟩ := List.append_eq_nil_iff.1 hnone
        exact ⟨mid, .cons hnext (.nil mid)⟩
      · obtain ⟨⟨rfl, hlater⟩, hclean⟩ : (s = t ∧ mid.run.1 = front ++ back) ∧ mid.run.2 = none := by
          simpa using h
        obtain ⟨last, hlast⟩ := ih (Prod.ext hlater hclean)
        exact ⟨last, .cons hnext hlast⟩

theorem Emits.finds {lx rest : Lexer} {skipped : List Token} {t : Token}
    (h : lx.Emits (skipped ++ [t]) rest) (hskipped : ∀ s ∈ skipped, s.kind.isLayout = true)
    (ht : t.kind.isLayout = false) : lx.Finds t rest := by
  induction skipped generalizing lx with
  | nil =>
    obtain _ | ⟨hnext, hrest⟩ := h
    cases hrest
    exact .here hnext ht
  | cons s skipped ih =>
    rw [List.forall_mem_cons] at hskipped
    obtain _ | ⟨hnext, hrest⟩ := h
    exact .later hnext hskipped.1 (ih hrest hskipped.2)

/-- The end marker is read with only the outermost level open. -/
theorem Emits.indents_of_endMarker {text : List Char} {rest : Lexer} {front : List Token} {t : Token}
    (h : (ofChars text).Emits (front ++ [t]) rest) (hk : t.kind = .endMarker) :
    rest.indents = [0] := by
  have houtermost := (h.reaches .start).wellNested.outermost
  obtain ⟨mid, -, _ | ⟨hnext, hnil⟩⟩ := emits_append.1 h
  cases hnil
  cases shifts_next hnext with
  | due hk' => cases hk.symm.trans hk'
  | deeper hk' => cases hk.symm.trans hk'
  | shallower hk' => cases hk.symm.trans hk'
  | ended hk' => cases hk.symm.trans hk'
  | level _ _ _ _ hindents _ _ hend =>
    have hone := hend hk
    rw [← hindents] at hone
    cases hlevels : rest.indents with
    | nil => simp [hlevels] at houtermost
    | cons level levels =>
      rw [hlevels] at hone houtermost
      obtain rfl : levels = [] := List.length_eq_zero_iff.1 (by simpa using hone)
      simpa using houtermost

/-! ### Whole sources -/

/-- Behind the beginning of the source and behind every line break outside brackets, a line begins or
the text is over. -/
theorem Emits.atLine {text : List Char} {start : Lexer} {front : List Token}
    (h : (ofChars text).Emits front start)
    (hbreak : ∀ last ∈ front.getLast?, last.kind = .newline ∨ last.kind = .lineBreak)
    (hdepth : start.depth = 0) :
    (start.Idle ∧ start.ahead = []) ∨ (start.AtLine ∧
      ∃ before, (ofChars text).Moves before start ∧ ∀ c ∈ before.getLast?, c = '\n') := by
  rcases List.eq_nil_or_concat' front with rfl | ⟨front, last, rfl⟩
  · cases h
    exact .inr ⟨⟨rfl, rfl, rfl, rfl⟩, [], .refl _, by simp⟩
  · obtain ⟨mid, hfront, _ | ⟨hnext, hnil⟩⟩ := emits_append.1 h
    cases hnil
    refine (atLine_of_break hnext (hbreak last (by simp)) hdepth).imp_right fun ⟨hline, text', htext⟩ => ?_
    obtain ⟨before, hbefore⟩ := hfront.moves
    obtain ⟨gap, htakes⟩ := takes_next hnext
    refine ⟨hline, _, hbefore.trans htakes.moves, fun c hc => ?_⟩
    rw [htext, ← List.append_assoc, ← List.append_assoc, List.getLast?_append] at hc
    simpa using hc.symm

/-- **The first token of a line outside brackets:** the first one that is no indent, dedent or comment,
behind the beginning of the source or a line break. The readers are those at the beginning of the line and
behind the token. -/
structure FirstOnLine (source : String) (front skipped : List Token) (t : Token) (start rest : Lexer) :
    Prop where
  succeeds : ∃ back, tokenize source = .ok (front ++ (skipped ++ t :: back))
  atLine : (ofSource source).afterTokens front.length = start
  atToken : (ofSource source).afterTokens (front.length + skipped.length + 1) = rest
  behindBreak : ∀ last ∈ front.getLast?, last.kind = .newline ∨ last.kind = .lineBreak
  outside : start.depth = 0
  skipped : ∀ s ∈ skipped, s.kind.isLayout = true
  first : t.kind.isLayout = false

theorem FirstOnLine.emits {source : String} {front skipped : List Token} {t : Token} {start rest : Lexer}
    (h : FirstOnLine source front skipped t start rest) :
    (ofSource source).Emits front start ∧ start.Emits (skipped ++ [t]) rest := by
  obtain ⟨back, htokens⟩ := h.succeeds
  have hrun := run_of_tokenize htokens
  have hsplit : front ++ (skipped ++ t :: back) = (front ++ (skipped ++ [t])) ++ back := by simp
  rw [hsplit] at hrun
  obtain ⟨last, hemits⟩ := emits_of_run hrun
  have hlast := hemits.eq_afterTokens
  obtain ⟨mid, hfront, hline⟩ := emits_append.1 hemits
  have hmid := hfront.eq_afterTokens
  rw [h.atLine] at hmid
  have hlength : (front ++ (skipped ++ [t])).length = front.length + skipped.length + 1 := by
    simp [Nat.add_assoc]
  rw [hlength, h.atToken] at hlast
  subst hmid hlast
  exact ⟨hfront, hline⟩

/-- **Every logical line is measured.** Take the first token of a line outside brackets. Unless it is the
end marker, at which only the outermost level is open, it belongs to the line that begins where the reader
was. If it is a word, the width of that line's indentation is on top of the levels exactly if the line does
not hide its indentation (or is as wide as the line before); a line that hides it leaves the levels alone.
If it is a line break, the line has no word, and it leaves the levels alone unless it is joined to the next
one right behind its indentation. -/
theorem lines_measured {source : String} {front skipped : List Token} {t : Token} {start rest : Lexer}
    (h : FirstOnLine source front skipped t start rest) :
    (t.kind = .endMarker ∧ rest.indents = [0]) ∨
    ∃ before line, stripMark source.toList = before ++ line ∧ start.here.offset = byteLength before ∧
      (∀ c ∈ before.getLast?, c = '\n') ∧
      ((t.kind.isWord = true ∧
          (rest.indent = indentWidth line ↔ ¬ HidesIndent line ∨ start.indent = indentWidth line) ∧
          (HidesIndent line → rest.indents = start.indents)) ∨
        (t.kind = .lineBreak ∧ (JoinsIndent line → rest.indent = indentWidth line) ∧
          (¬ JoinsIndent line → rest.indents = start.indents))) := by
  obtain ⟨hfront, hline⟩ := h.emits
  by_cases hend : t.kind = .endMarker
  · have hall : (ofSource source).Emits (front ++ skipped ++ [t]) rest := by
      rw [List.append_assoc]
      exact emits_append.2 ⟨start, hfront, hline⟩
    exact .inl ⟨hend, hall.indents_of_endMarker hend⟩
  have hfinds := hline.finds h.skipped h.first
  rcases hfront.atLine h.behindBreak h.outside with ⟨hidle, hnil⟩ | ⟨hat, before, hmoves, hbefore⟩
  · have hspent := (hidle.spent hnil).finds hfinds
    exact absurd (hspent.resolve_right fun hbreak => hbreak.2 rfl) hend
  refine .inr ⟨before, start.ahead, hmoves.ahead, ?_, hbefore, ?_⟩
  · rw [hmoves.here, Position.across_offset]
    exact Nat.zero_add _
  obtain ⟨mid, hidle, hmid, ⟨gap, hgap, hgaps⟩, hskipped, hmeasured⟩ := hat.finds hfinds
  obtain ⟨hindents, hkind⟩ := (hidle.finds hmid).resolve_left hend
  by_cases hpassed : IsSkipped start.ahead
  · have hsame : rest.indents = start.indents := by rw [hindents, hskipped hpassed]; rfl
    have hindent : rest.indent = start.indent := by rw [indent, hsame, indent]
    refine hkind.imp (fun hword => ⟨hword, ?_, fun _ => hsame⟩) fun hbreak => ⟨hbreak, ?_, fun _ => hsame⟩
    · have hhides : HidesIndent start.ahead := by
        rw [hskipped hpassed] at hidle hmid
        exact hidle.hidesIndent hmid hword hpassed
      rw [hindent]
      simp [hhides]
    · exact fun hjoins => absurd hpassed hjoins.not_isSkipped
  · have hwidth : rest.indent = indentWidth start.ahead := by
      rw [indent, hindents, ← hmeasured hpassed, indent]
    have hplain : ¬ HidesIndent start.ahead := fun hhides => hpassed hhides.isSkipped
    refine hkind.imp (fun hword => ⟨hword, by simp [hwidth, hplain], fun hhides => absurd hhides hplain⟩)
      fun hbreak => ⟨hbreak, fun _ => hwidth, fun hjoins => ?_⟩
    -- a line that is measured and not joined has a word
    rw [hgap] at hpassed hjoins
    obtain ⟨c, text, hcons, hcomment, hc⟩ := drop_blanks_of_measured hgaps hpassed hjoins
    have hword := (hidle.finds_word hcons hcomment hc hmid).1
    simp [hbreak, Token.Kind.isWord] at hword

/-- A line whose only name stands behind two spaces and a carriage return. -/
def hiddenSource : String := "  \rx\n"

theorem hiddenSource_unmeasured :
    ∃ t start rest, FirstOnLine hiddenSource [] [] t start rest ∧ t.text = "x" ∧
      indentWidth hiddenSource.toList = 2 ∧ HidesIndent hiddenSource.toList ∧ rest.indents = [0] := by
  let t : Token := ⟨.name, "x", ⟨3, 1, 3⟩, ⟨4, 1, 4⟩, hiddenSource⟩
  let back : List Token :=
    [⟨.newline, "\n", ⟨4, 1, 4⟩, ⟨5, 1, 5⟩, hiddenSource⟩, ⟨.endMarker, "", ⟨5, 2, 0⟩, ⟨5, 2, 0⟩, ""⟩]
  have hfirst : FirstOnLine hiddenSource [] [] t (ofSource hiddenSource)
      ((ofSource hiddenSource).afterTokens 1) := by
    refine ⟨⟨back, ?_⟩, rfl, rfl, by simp, rfl, by simp, rfl⟩
    exact toOption_eq_some_iff.1 (by decide +kernel)
  have hhides : HidesIndent hiddenSource.toList :=
    ⟨['x', '\n'], ⟨[' ', ' '], [], by decide, by decide, .inl rfl, by decide⟩, by decide⟩
  refine ⟨t, _, _, hfirst, rfl, by decide, hhides, ?_⟩
  rcases lines_measured hfirst with ⟨hend, -⟩ | ⟨before, line, hsource, hoffset, -, hline⟩
  · cases hend
  · -- the line is the whole source
    obtain rfl : before = [] := before_eq_of_byteLength (y := hiddenSource.toList) hsource.symm hoffset.symm
    obtain rfl : hiddenSource.toList = line := hsource
    rcases hline with ⟨-, -, hkept⟩ | ⟨hbreak, -⟩
    · exact hkept hhides
    · cases hbreak

end Lexer

end Quasiquote
