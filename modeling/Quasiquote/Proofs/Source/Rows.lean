import Quasiquote.Proofs.Source.Words

/-!
# Reading a text line by line

What a reader makes of the lines of a text outside brackets: blank lines, comments, and lines of words
with spaces before them.

## Main Definitions

* `Lexer.atRow` — a reader at the beginning of a line
* `Lexer.inRow` — a reader behind words of a line

## Main Statements

* `Lexer.spells_blankRow`, `Lexer.spells_comment` — lines without a word bring no logical line
* `Lexer.spells_row` — the words of a line, with an indent before them if the line is deeper
* `Lexer.spells_newline` — a line feed behind words ends the logical line
-/

namespace Quasiquote.Lexer

open Scan

variable {indents : List Nat} {behind gap rest : List Char} {p : Position}

/-- A reader at the beginning of a line, outside brackets. -/
def atRow (indents : List Nat) (behind ahead : List Char) (p : Position) : Lexer :=
  { behind, ahead, here := p, indents, depth := 0,
    atLineStart := true, lineHasContent := false, pendingDedents := 0 }

/-- A reader behind words of a line, outside brackets. -/
def inRow (indents : List Nat) (behind ahead : List Char) (p : Position) : Lexer :=
  (atRow indents behind ahead p).within 0

/-! ### Lines without a word -/

/-- The end of a blank line ends no logical line. -/
theorem spells_blankRow (hgap : ∀ c ∈ gap, isGap c = true) :
    ∃ b q, (atRow indents behind (gap ++ '\n' :: rest) p).Spells [(.lineBreak, "\n")]
      (atRow indents b rest q) :=
  spells_break hgap rfl rfl

/-- A comment reaches to the end of its line. -/
theorem spells_comment (hgap : ∀ c ∈ gap, isGap c = true) {note : List Char}
    (hnote : ∀ c ∈ note, endsLine c = false) (hrest : ∀ c ∈ rest.head?, endsLine c = true) :
    ∃ b q, (atRow indents behind (gap ++ '#' :: (note ++ rest)) p).Spells
      [(.comment, String.ofList ('#' :: note))] (atRow indents b rest q).onLine := by
  generalize hlx : atRow indents behind (gap ++ '#' :: (note ++ rest)) p = lx
  have ha : lx.ahead = gap ++ '#' :: (note ++ rest) := hlx ▸ rfl
  have hat : lx.AtToken := by
    refine ⟨hlx ▸ rfl, fun _ _ => (indentation_eq_none_iff _).2 (.inr (.inl ?_))⟩
    show isCommentLine lx.ahead = true
    have hdrop : (gap ++ '#' :: (note ++ rest)).dropWhile isGap = '#' :: (note ++ rest) :=
      List.dropWhile_append_of_pos hgap
    rw [ha, isCommentLine, afterIndent, hdrop]
    rfl
  have hpast : lx.onLine.pastBlanks.ahead = '#' :: (note ++ rest) := by
    show lx.ahead.drop (Scan.blankLength lx.ahead) = _
    rw [ha, blankLength_gap hgap rfl, List.drop_left]
  have htake : ('#' :: (note ++ rest)).takeWhile (fun c => !endsLine c) = '#' :: note := by
    rw [← List.cons_append, List.takeWhile_append_of_pos (by simpa [endsLine] using hnote)]
    cases rest with
    | nil => simp
    | cons c rest => simp [hrest c rfl]
  have hnext := (next_of_atToken hat).trans (lineToken_comment hpast)
  unfold comment at hnext
  rw [hpast, htake] at hnext
  dsimp only at hnext
  -- only where the reader stands is new
  generalize hmid : lx.onLine.pastBlanks.advance ('#' :: note).length = mid at hnext
  have hplace : mid = lx.onLine.elsewhere mid.behind rest mid.here := by
    have hdrop : lx.onLine.pastBlanks.ahead.drop ('#' :: note).length = rest := by
      rw [hpast, ← List.cons_append, List.drop_left]
    rw [← hmid, ← hdrop]
    rfl
  rw [hplace] at hnext
  subst hlx
  refine ⟨_, _, .single hnext ?_ (by simp)⟩
  show (_, String.ofList _) = _
  rw [hpast, ← List.cons_append, List.take_left]
  rfl

/-- The end of a line with a comment ends no logical line. -/
theorem spells_commentRow (hgap : ∀ c ∈ gap, isGap c = true) {note : List Char}
    (hnote : ∀ c ∈ note, endsLine c = false) :
    ∃ b q, (atRow indents behind (gap ++ '#' :: (note ++ '\n' :: rest)) p).Spells
      [(.comment, String.ofList ('#' :: note)), (.lineBreak, "\n")] (atRow indents b rest q) := by
  obtain ⟨b, q, hcomment⟩ := @spells_comment indents behind gap ('\n' :: rest) p hgap note hnote
    (by simp [endsLine])
  obtain ⟨b', q', hbreak⟩ := @spells_break (atRow indents b ('\n' :: rest) q).onLine [] rest
    (List.forall_mem_nil _) rfl rfl
  exact ⟨b', q', hcomment.trans hbreak⟩

/-! ### Lines of words -/

theorem foldl_widen_spaces (spaces width : Nat) :
    (List.replicate spaces ' ').foldl widen width = width + spaces := by
  induction spaces generalizing width with
  | zero => rfl
  | succ n ih =>
    have hone : widen width ' ' = width + 1 := rfl
    rw [List.replicate_succ, List.foldl_cons, ih, hone]
    omega

/-- Spaces before a lexeme are an indentation as wide as they are many. -/
theorem indentation_spaces {c : Char} (hc : startsLexeme c = true) (spaces : Nat) (rest : List Char) :
    (List.replicate spaces ' ' ++ c :: rest).takeWhile isGap = List.replicate spaces ' ' ∧
      indentWidth (List.replicate spaces ' ' ++ c :: rest) = spaces ∧
      isBlankLine (List.replicate spaces ' ' ++ c :: rest) = false ∧
      isCommentLine (List.replicate spaces ' ' ++ c :: rest) = false := by
  have hother {d : Char} (hd : startsLexeme d = false) : c ≠ d := by
    rintro rfl
    rw [hc] at hd
    cases hd
  have hgap : isGap c = false := by
    simp [isGap, hother (d := ' ') (by decide), hother (d := '\t') (by decide),
      hother (d := '\x0c') (by decide)]
  have hspaces : ∀ d ∈ List.replicate spaces ' ', isGap d = true := by simp [isGap]
  have htake : (List.replicate spaces ' ' ++ c :: rest).takeWhile isGap = List.replicate spaces ' ' := by
    rw [List.takeWhile_append_of_pos hspaces, List.takeWhile_cons_of_neg (by simp [hgap]),
      List.append_nil]
  have hafter : afterIndent (List.replicate spaces ' ' ++ c :: rest) = some c := by
    rw [afterIndent, List.dropWhile_append_of_pos hspaces, List.dropWhile_cons_of_neg (by simp [hgap])]
    rfl
  refine ⟨htake, ?_, ?_, ?_⟩
  · rw [indentWidth, htake, foldl_widen_spaces, Nat.zero_add]
  · simp [isBlankLine, hafter, endsLine, hother (d := '\n') (by decide), hother (d := '\r') (by decide),
      hother (d := '\x00') (by decide)]
  · simp [isCommentLine, hafter, hother (d := '#') (by decide)]

/-- The indent that a line with some spaces before it brings, if it is deeper than all levels. -/
def indentWords (indents : List Nat) (spaces : Nat) : List Spelling :=
  if indents.headD 0 < spaces then [(.indent, String.ofList (List.replicate spaces ' '))] else []

/-- The open levels behind the beginning of such a line. -/
def openedBy (indents : List Nat) (spaces : Nat) : List Nat :=
  if indents.headD 0 < spaces then spaces :: indents else indents

/-- The indentation of a line that is deeper than all levels is an indent, which opens a level. -/
theorem spells_indent {spaces : Nat} (hdeeper : indents.headD 0 < spaces) {c : Char}
    (hc : startsLexeme c = true) (more : List Char) :
    ∃ b q, (atRow indents behind (List.replicate spaces ' ' ++ c :: more) p).Spells
      [(.indent, String.ofList (List.replicate spaces ' '))]
      (atRow (spaces :: indents) b (c :: more) q).onLine := by
  obtain ⟨hgap, hwidth, hblank, hcomment⟩ := indentation_spaces hc spaces more
  generalize hlx : atRow indents behind (List.replicate spaces ' ' ++ c :: more) p = lx
  have ha : lx.onLine.ahead = List.replicate spaces ' ' ++ c :: more := hlx ▸ rfl
  have hindent : lx.onLine.indent = indents.headD 0 := hlx ▸ rfl
  have hlength : lx.onLine.gapLength = spaces := by
    rw [gapLength, ha, hgap, List.length_replicate]
  have hindentation := indentation_eq lx.onLine
  rw [ha, hblank, hcomment, hwidth, hlength, hindent, if_pos hdeeper] at hindentation
  have hnext := next_of_indentation (hlx ▸ rfl) (hlx ▸ rfl) (hlx ▸ rfl) hindentation
  -- only where the reader stands is new
  generalize hmid : lx.onLine.advance spaces = mid at hnext
  have hplace : mid = lx.onLine.elsewhere mid.behind (c :: more) mid.here := by
    have hdrop : lx.onLine.ahead.drop spaces = c :: more := by
      rw [ha, List.drop_left' List.length_replicate]
    rw [← hmid, ← hdrop]
    rfl
  rw [hplace] at hnext
  subst hlx
  refine ⟨_, _, .single hnext ?_ (by simp)⟩
  show (_, String.ofList ((List.replicate spaces ' ' ++ c :: more).take spaces)) = _
  rw [List.take_left' List.length_replicate]
  rfl

/-- The words of a line, with an indent before them if the line is deeper than all levels. -/
theorem spells_row {spaces : Nat} (hspaces : indents.headD 0 ≤ spaces) {line : List Char}
    {words : List Spelling} (hne : words ≠ []) (hline : ∃ c more, line = c :: more ∧ startsLexeme c = true)
    (hwords : Words line words rest) (hflat : words.foldl nestWord 0 = 0) :
    ∃ b q, (atRow indents behind (List.replicate spaces ' ' ++ line) p).Spells
      (indentWords indents spaces ++ words) (inRow (openedBy indents spaces) b rest q) := by
  obtain ⟨c, more, rfl, hc⟩ := hline
  rcases Nat.lt_or_eq_of_le hspaces with hdeeper | hequal
  · -- what follows the indentation is read behind the indent
    rw [indentWords, openedBy, if_pos hdeeper, if_pos hdeeper]
    obtain ⟨b, q, hopened⟩ := @spells_indent indents behind p spaces hdeeper c hc more
    have hat : (atRow (spaces :: indents) b (c :: more) q).onLine.AtToken :=
      ⟨rfl, fun hstart => by cases hstart⟩
    obtain ⟨b', q', hspells⟩ := spells_words hwords hne hat rfl
    rw [show (atRow (spaces :: indents) b (c :: more) q).onLine.depth = 0 from rfl, hflat] at hspells
    exact ⟨b', q', hopened.trans hspells⟩
  · -- the indentation is part of the blanks before the words
    have hnot : ¬ indents.headD 0 < spaces := by omega
    rw [indentWords, openedBy, if_neg hnot, if_neg hnot, List.nil_append]
    have hat : (atRow indents behind (List.replicate spaces ' ' ++ c :: more) p).AtToken := by
      refine ⟨rfl, fun _ _ => (indentation_eq_none_iff _).2 (.inr (.inr ?_))⟩
      exact (indentation_spaces hc spaces more).2.1.trans hequal.symm
    obtain ⟨b, q, hspells⟩ := spells_words (hwords.indent hne spaces) hne hat rfl
    rw [show (atRow indents behind (List.replicate spaces ' ' ++ c :: more) p).depth = 0 from rfl,
      hflat] at hspells
    exact ⟨b, q, hspells⟩

theorem headD_openedBy {spaces : Nat} (h : indents.headD 0 ≤ spaces) :
    (openedBy indents spaces).headD 0 = spaces := by
  unfold openedBy
  split
  · rfl
  · omega

/-- The end of a line of words ends a logical line. -/
theorem spells_newline :
    ∃ b q, (inRow indents behind ('\n' :: rest) p).Spells [(.newline, "\n")] (atRow indents b rest q) :=
  spells_break (List.forall_mem_nil _) rfl rfl

end Quasiquote.Lexer
