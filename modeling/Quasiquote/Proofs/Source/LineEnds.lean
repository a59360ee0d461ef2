import Quasiquote.Proofs.Source.Words
import Quasiquote.Proofs.Text.LineEnds

/-!
# Reading a source with other line ends

A source without carriage returns is read together with the same source whose line ends are a
carriage return and a line feed. Step by step the two readers find the same tokens at the same places.

## Main Definitions

* `Position.Widens`, `Token.Widens`, `LexError.Widens` — what corresponds in the widened source
* `Lexer.Widens` — the reader that stands at the corresponding place and knows the same

## Main Statements

* `Scan.crlf_blankLength`, `Scan.crlf_literalLength` — how far a token and the blanks before it reach
* `Lexer.Widens.next` — two corresponding readers take corresponding steps

## Design Notes

A line break ends on the line that it breaks, one column further on in the widened source. So nothing is
said about where tokens stop; a token that breaks no line stops where its reader goes on.
-/

namespace Quasiquote

open Text

namespace Scan

/-! ### How far a token reaches -/

section

variable {text : List Char}

theorem crlf_blankLength (h : '\r' ∉ text) :
    blankLength (crlf text) = crlfLength text (blankLength text) := by
  fun_induction blankLength text with
  | case1 rest ih =>
    rw [crlf_cons (by decide), crlf_feed, blankLength_joinCrlf, ih (by simp_all),
      crlfLength_cons (by decide), crlfLength_feed]
  | case2 rest => simp at h
  | case3 rest => simp at h
  | case4 c rest _ _ _ hc ih =>
    have hfeed : c ≠ '\n' := by rintro rfl; simp [isGap] at hc
    have hslash : c ≠ '\\' := by rintro rfl; simp [isGap] at hc
    rw [List.mem_cons, not_or] at h
    rw [crlf_cons hfeed, blankLength_cons (by simp [hslash]) (by simp [hslash])
      (by simp [Ne.symm h.1]), if_pos hc, ih h.2, crlfLength_cons hfeed]
  | case5 c rest hjoin _ _ hc =>
    by_cases hfeed : c = '\n'
    · subst hfeed
      rfl
    · rw [List.mem_cons, not_or] at h
      -- a widened line end is joined only where there is one
      have hjoinCrlf : ∀ more, c = '\\' → crlf rest = '\r' :: '\n' :: more → False := by
        intro more hslash hmore
        cases rest with
        | nil => simp at hmore
        | cons d rest =>
          by_cases hd : d = '\n'
          · exact hjoin rest hslash (by rw [hd])
          · rw [crlf_cons hd] at hmore
            injection hmore with hd _
            simp [hd] at h
      have hjoin' : ∀ more, c = '\\' → crlf rest = '\n' :: more → False := by
        intro more hslash hmore
        cases rest with
        | nil => simp at hmore
        | cons d rest =>
          by_cases hd : d = '\n'
          · simp [hd] at hmore
          · rw [crlf_cons hd] at hmore
            injection hmore with hmore _
            exact hd hmore
      rw [crlf_cons hfeed, blankLength_cons hjoin' hjoinCrlf (by simp [Ne.symm h.1]), if_neg hc,
        crlfLength_zero]
  | case6 => rfl

theorem crlf_breakLength (h : '\r' ∉ text) :
    breakLength (crlf text) = crlfLength text (breakLength text) := by
  cases text with
  | nil => rfl
  | cons c rest =>
    by_cases hfeed : c = '\n'
    · subst hfeed
      rfl
    · rw [List.mem_cons, not_or] at h
      rw [crlf_cons hfeed, breakLength_cons, breakLength_cons, if_neg hfeed, if_neg hfeed,
        if_neg (by simp [Ne.symm h.1]), if_neg (by simp [Ne.symm h.1]), crlfLength_zero]

/-- The first character of a text becomes a carriage return if it is a line feed. -/
theorem head?_crlf (text : List Char) :
    (crlf text).head? = text.head?.map fun c => if c = '\n' then '\r' else c := by
  cases text with
  | nil => rfl
  | cons c rest =>
    by_cases hfeed : c = '\n'
    · simp [hfeed]
    · simp [crlf_cons hfeed, hfeed]

theorem any_head?_crlf {p : Char → Bool} (hfeed : p '\n' = false) (hreturn : p '\r' = false)
    (text : List Char) : (crlf text).head?.any p = text.head?.any p := by
  rw [head?_crlf]
  cases text with
  | nil => rfl
  | cons c rest =>
    by_cases hc : c = '\n'
    · simp [hc, hfeed, hreturn]
    · simp [hc]

theorem crlf_startsNumber (text : List Char) : startsNumber (crlf text) = startsNumber text := by
  cases text with
  | nil => rfl
  | cons c rest =>
    by_cases hc : c = '\n'
    · subst hc
      rfl
    · rw [crlf_cons hc, startsNumber_cons, startsNumber_cons,
        any_head?_crlf (by decide) (by decide)]

theorem isHexadecimal_eq (text : List Char) :
    isHexadecimal text = (['0', 'x'].isPrefixOf text || ['0', 'X'].isPrefixOf text) := by
  unfold isHexadecimal
  split
  · simp
  · simp
  · next hlower hupper =>
    symm
    rw [Bool.or_eq_false_iff, Bool.eq_false_iff, Bool.eq_false_iff, Ne, Ne,
      List.isPrefixOf_iff_prefix, List.isPrefixOf_iff_prefix]
    exact ⟨fun ⟨rest, h⟩ => hlower rest h.symm, fun ⟨rest, h⟩ => hupper rest h.symm⟩

theorem crlf_isHexadecimal (text : List Char) : isHexadecimal (crlf text) = isHexadecimal text := by
  have hmark {word : List Char} (hfeed : '\n' ∉ word) (hreturn : '\r' ∉ word) :
      word.isPrefixOf (crlf text) = word.isPrefixOf text := by
    rw [Bool.eq_iff_iff, List.isPrefixOf_iff_prefix, List.isPrefixOf_iff_prefix,
      prefix_crlf_iff hfeed hreturn]
  rw [isHexadecimal_eq, isHexadecimal_eq, hmark (by decide) (by decide),
    hmark (by decide) (by decide)]

/-- A number goes on with an exponent's sign, or with one of its parts. -/
theorem numberTail_cons (hexadecimal : Bool) (c : Char) (rest : List Char) :
    numberTail hexadecimal (c :: rest) =
      if (c == 'e' || c == 'E') && rest.head?.any isSign && !hexadecimal then
        numberTail hexadecimal rest.tail + 2
      else if isNumberPart c then numberTail hexadecimal rest + 1
      else 0 := by
  cases rest with
  | nil => simp [numberTail_singleton]
  | cons d rest => simp [numberTail_cons_cons]

theorem crlf_numberTail (hexadecimal : Bool) (text : List Char) :
    numberTail hexadecimal (crlf text) = numberTail hexadecimal text := by
  fun_induction numberTail hexadecimal text with
  | case1 c sign rest hexponent ih =>
    have hc : c ≠ '\n' := by rintro rfl; simp at hexponent
    have hsign : sign ≠ '\n' := by rintro rfl; simp at hexponent
    rw [crlf_cons hc, crlf_cons hsign, numberTail_cons_cons, ih]
    exact if_pos hexponent
  | case2 c sign rest hexponent hc ih =>
    have hfeed : c ≠ '\n' := by rintro rfl; revert hc; decide
    rw [crlf_cons hfeed, numberTail_cons, any_head?_crlf (by decide) (by decide), ih]
    exact (if_neg hexponent).trans (if_pos hc)
  | case3 c sign rest hexponent hc =>
    by_cases hfeed : c = '\n'
    · subst hfeed
      exact numberTail_eq_zero (by decide) _ _
    · rw [crlf_cons hfeed]
      exact numberTail_eq_zero (Bool.eq_false_iff.2 hc) _ _
  | case4 c hc =>
    have hfeed : c ≠ '\n' := by rintro rfl; revert hc; decide
    rw [crlf_cons hfeed, crlf_nil]
    exact if_pos hc
  | case5 c hc =>
    by_cases hfeed : c = '\n'
    · subst hfeed
      exact numberTail_eq_zero (by decide) _ _
    · rw [crlf_cons hfeed]
      exact numberTail_eq_zero (Bool.eq_false_iff.2 hc) _ _
  | case6 => rfl

theorem crlf_numberLength (text : List Char) : numberLength (crlf text) = numberLength text := by
  rw [numberLength, crlf_isHexadecimal, crlf_numberTail]
  rfl

/-- Two quotes are no line end. -/
theorem crlf_take_two {quote : Char} (hquote : isQuote quote = true) (text : List Char) :
    (crlf text).take 2 = [quote, quote] ↔ text.take 2 = [quote, quote] := by
  have hfeed : '\n' ∉ [quote, quote] := by
    rintro hmem
    simp only [List.mem_cons, List.not_mem_nil, or_false, or_self] at hmem
    subst hmem
    revert hquote
    decide
  have hreturn : '\r' ∉ [quote, quote] := by
    rintro hmem
    simp only [List.mem_cons, List.not_mem_nil, or_false, or_self] at hmem
    subst hmem
    revert hquote
    decide
  have hprefix := prefix_crlf_iff hfeed hreturn text
  rwa [List.prefix_iff_eq_take, List.prefix_iff_eq_take, eq_comm,
    eq_comm (a := [quote, quote])] at hprefix

/-- **A literal's body reaches as far,** and is closed in the one text if it is in the other. -/
theorem crlf_bodyLength {quote : Char} (hquote : isQuote quote = true) (triple : Bool)
    (h : '\r' ∉ text) :
    bodyLength quote triple (crlf text) =
      (crlfLength text (bodyLength quote triple text).1, (bodyLength quote triple text).2) := by
  have hreturn : '\r' ≠ quote := by rintro rfl; revert hquote; decide
  have hfeed : quote ≠ '\n' := by rintro rfl; revert hquote; decide
  fun_induction bodyLength quote triple text with
  | case1 rest => simp at h
  | case2 c rest _ ih =>
    have hrest : '\r' ∉ rest := by simp_all
    by_cases hc : c = '\n'
    · subst hc
      rw [crlf_cons (by decide), crlf_feed, bodyLength_crlf, ih hrest]
      rfl
    · have hne : c ≠ '\r' := by rintro rfl; simp at h
      rw [crlf_cons (by decide), crlf_cons hc, bodyLength_escape _ _ (fun heq => absurd heq hne),
        ih hrest]
      simp [bodyLength.grow, crlfLength_cons, hc]
  | case3 => rfl
  | case4 rest htriple hclose h1 h2 h3 =>
    rw [crlf_cons hfeed, bodyLength_cons _ _ (ne_backslash h2 h3), if_pos rfl, if_pos htriple,
      if_pos ((crlf_take_two hquote rest).2 hclose)]
    have htake : (quote :: rest).take 3 = [quote, quote, quote] := by
      rw [List.take_succ_cons, hclose]
    rw [crlfLength, htake, crlf_of_notMem (by simp [Ne.symm hfeed])]
    rfl
  | case5 rest htriple hclose h1 h2 h3 ih =>
    rw [crlf_cons hfeed, bodyLength_cons _ _ (ne_backslash h2 h3), if_pos rfl, if_pos htriple,
      if_neg fun hquotes => hclose ((crlf_take_two hquote rest).1 hquotes), ih (by simp_all)]
    simp [bodyLength.grow, crlfLength_cons, hfeed]
  | case6 rest htriple h1 h2 h3 =>
    rw [crlf_cons hfeed, bodyLength_cons _ _ (ne_backslash h2 h3), if_pos rfl, if_neg htriple]
    simp [crlfLength_cons, hfeed]
  | case7 c rest h1 h2 h3 hc hend =>
    have hc' : c = '\n' := by
      simp only [endsLine, Bool.and_eq_true, Bool.or_eq_true, beq_iff_eq] at hend
      exact hend.1.resolve_right fun heq => h (heq ▸ List.mem_cons_self)
    subst hc'
    rw [crlf_feed, bodyLength_cons _ _ (by decide), if_neg hreturn,
      if_pos (by simpa [endsLine] using hend)]
    rfl
  | case8 c rest h1 h2 h3 hc hend ih =>
    have hrest : '\r' ∉ rest := by simp_all
    by_cases hc' : c = '\n'
    · -- only between three quotes does the body go on behind a line end
      subst hc'
      have htriple : triple = true := by simpa [endsLine] using hend
      rw [crlf_feed, bodyLength_cons _ _ (by decide), if_neg hreturn, if_neg (by simp [htriple]),
        bodyLength_cons _ _ (by decide), if_neg hc, if_neg (by simp [htriple]), ih hrest]
      rfl
    · rw [crlf_cons hc', bodyLength_cons _ _ (ne_backslash h2 h3), if_neg hc, if_neg hend, ih hrest]
      simp [bodyLength.grow, crlfLength_cons, hc']
  | case9 => rfl

theorem crlf_literalLength {quote : Char} (hquote : isQuote quote = true) {rest : List Char}
    (h : '\r' ∉ rest) :
    literalLength (crlf (quote :: rest)) =
      (crlfLength (quote :: rest) (literalLength (quote :: rest)).1,
        (literalLength (quote :: rest)).2) := by
  have hfeed : quote ≠ '\n' := by rintro rfl; revert hquote; decide
  rw [crlf_cons hfeed, literalLength_cons, literalLength_cons]
  by_cases hthree : rest.take 2 = [quote, quote]
  · rw [if_pos hthree, if_pos ((crlf_take_two hquote rest).2 hthree)]
    have hfront : crlfLength rest 2 = 2 := by
      rw [crlfLength, hthree, crlf_of_notMem (by simp [Ne.symm hfeed])]
      rfl
    have hdrop : '\r' ∉ rest.drop 2 := fun hmem => h (List.mem_of_mem_drop hmem)
    have hbehind := drop_crlf rest 2
    rw [hfront] at hbehind
    rw [hbehind, crlf_bodyLength hquote true hdrop]
    simp only [bodyLength.grow, Prod.mk.injEq, and_true]
    rw [show ∀ n, n + 3 = (2 + n) + 1 by omega, show ∀ n, n + 3 = (2 + n) + 1 by omega,
      crlfLength_cons hfeed, crlfLength_add, hfront]
  · rw [if_neg hthree, if_neg fun hquotes => hthree ((crlf_take_two hquote rest).1 hquotes),
      crlf_bodyLength hquote false h]
    simp [bodyLength.grow, crlfLength_cons, hfeed]

/-! ### Operators -/

theorem take_crlf_mem_iff (n : Nat) (words : List (List Char))
    (hwords : ∀ word ∈ words, word.length = n ∧ '\n' ∉ word ∧ '\r' ∉ word) (text : List Char) :
    (crlf text).take n ∈ words ↔ text.take n ∈ words := by
  rw [← any_prefix_iff (fun word hword => (hwords word hword).1),
    ← any_prefix_iff (fun word hword => (hwords word hword).1)]
  exact exists_congr fun word => and_congr_right fun hword =>
    prefix_crlf_iff (hwords word hword).2.1 (hwords word hword).2.2 text

theorem crlf_operatorLength (text : List Char) :
    operatorLength (crlf text) = operatorLength text := by
  have hthree := take_crlf_mem_iff 3 operators3 (by decide) text
  have htwo := take_crlf_mem_iff 2 operators2 (by decide) text
  have hbehind (h : text.take 2 ∈ operators2) :
      (∀ c ∈ ((crlf text).drop 2).head?, c.utf8Size = 1) ↔
        ∀ c ∈ (text.drop 2).head?, c.utf8Size = 1 := by
    have hlength : (text.take 2).length = 2 := (operators2_ascii _ h).1
    have hfeed : '\n' ∉ text.take 2 := fun hmem =>
      absurd (operators2_parts _ h _ hmem) (by decide)
    rw [List.length_take] at hlength
    have hdrop := drop_crlf text 2
    rw [crlfLength_eq (by omega) hfeed] at hdrop
    rw [hdrop, head?_crlf]
    cases (text.drop 2).head? with
    | none => simp
    | some c =>
      have hsize : '\r'.utf8Size = '\n'.utf8Size := rfl
      by_cases hc : c = '\n'
      · simp [hc, hsize]
      · simp [hc]
  have hone : ((crlf text).take 1).any operators1.contains =
      (text.take 1).any operators1.contains := by
    cases text with
    | nil => rfl
    | cons c rest =>
      by_cases hc : c = '\n'
      · subst hc
        rfl
      · rw [crlf_cons hc]
        rfl
  rw [operatorLength_eq, operatorLength_eq, hone]
  simp only [hthree, htwo, and_congr_right hbehind]

end

/-! ### Words on one line -/

theorem crlfLength_operator (text : List Char) :
    crlfLength text (operatorLength text) = operatorLength text :=
  crlfLength_eq (operator_parts text).1 fun hmem =>
    absurd ((operator_parts text).2 _ hmem) (by decide)

theorem crlfLength_number (text : List Char) :
    crlfLength text (numberLength text) = numberLength text :=
  crlfLength_eq (numberTail_le _ text) (feed_notMem_number _ text)

/-! ### The beginning of a line -/

theorem afterIndent_crlf (text : List Char) :
    afterIndent (crlf text) = (afterIndent text).map fun c => if c = '\n' then '\r' else c := by
  rw [afterIndent, dropWhile_crlf (by decide) (by decide), head?_crlf]
  rfl

theorem crlf_isBlankLine (text : List Char) : isBlankLine (crlf text) = isBlankLine text := by
  rw [isBlankLine, isBlankLine, afterIndent_crlf]
  cases afterIndent text with
  | none => rfl
  | some c =>
    by_cases hc : c = '\n'
    · subst hc
      rfl
    · simp [hc]

theorem crlf_isCommentLine (text : List Char) :
    isCommentLine (crlf text) = isCommentLine text := by
  rw [isCommentLine, isCommentLine, afterIndent_crlf]
  cases afterIndent text with
  | none => rfl
  | some c =>
    by_cases hc : c = '\n'
    · subst hc
      rfl
    · simp [hc]

theorem crlf_indentWidth (text : List Char) : indentWidth (crlf text) = indentWidth text := by
  rw [indentWidth, takeWhile_crlf (by decide) (by decide)]
  rfl

/-- **The same lines make up a block.** -/
theorem crlf_regionLines (outer : Nat) (body : Option Nat) (lines : List (List Char)) :
    regionLines outer body (lines.map crlf) = (regionLines outer body lines).map crlf := by
  induction lines generalizing body with
  | nil => rfl
  | cons line lines ih =>
    have htentative : isTentative outer body (crlf line) = isTentative outer body line := by
      simp only [isTentative, crlf_isBlankLine, crlf_isCommentLine, crlf_indentWidth]
    simp only [List.map_cons, regionLines, htentative, crlf_indentWidth, ih]
    split
    · cases regionLines outer body lines <;> rfl
    split
    · rfl
    · rfl

/-- A word on one line is found at the corresponding place. -/
theorem crlf_findLength {needle : List Char} (hfeed : '\n' ∉ needle) (hreturn : '\r' ∉ needle)
    (hne : needle ≠ []) (text : List Char) :
    findLength needle (crlf text) = (findLength needle text).map (crlfLength text) := by
  induction text with
  | nil => simp [findLength, hne]
  | cons c rest ih =>
    have hprefix : needle.isPrefixOf (crlf (c :: rest)) = needle.isPrefixOf (c :: rest) := by
      rw [Bool.eq_iff_iff, List.isPrefixOf_iff_prefix, List.isPrefixOf_iff_prefix,
        prefix_crlf_iff hfeed hreturn]
    obtain ⟨d, needle, rfl⟩ := List.exists_cons_of_ne_nil hne
    by_cases hc : c = '\n'
    · subst hc
      have hd : d ≠ '\n' ∧ d ≠ '\r' := by
        simp only [List.mem_cons, not_or] at hfeed hreturn
        exact ⟨Ne.symm hfeed.1, Ne.symm hreturn.1⟩
      rw [crlf_feed, findLength, findLength, findLength, ih]
      simp only [List.isPrefixOf_cons_cons, beq_eq_false_iff_ne.2 hd.1, beq_eq_false_iff_ne.2 hd.2,
        Bool.false_and, Bool.false_eq_true, if_false, Option.map_map]
      rfl
    · rw [crlf_cons hc] at hprefix ⊢
      rw [findLength, findLength, hprefix, ih]
      split
      · rfl
      · rw [Option.map_map, Option.map_map]
        exact congrArg (Option.map · _) (funext fun n => (crlfLength_cons hc rest n).symm)

end Scan

/-! ### Corresponding places -/

/-- **The place that corresponds to a place** in the widened source. It is on the same line, in the same
column, and each line before it takes one byte more. -/
structure Position.Widens (p p' : Position) : Prop where
  offset : p'.offset + 1 = p.offset + p.line
  line : p'.line = p.line
  column : p'.column = p.column

theorem Position.widens_origin : origin.Widens origin := ⟨rfl, rfl, rfl⟩

theorem Position.Widens.across {p p' : Position} (h : p.Widens p') (text : List Char) :
    (p.across text).Widens (p'.across (crlf text)) := by
  induction text generalizing p p' with
  | nil => exact h
  | cons c rest ih =>
    obtain ⟨hoffset, hline, hcolumn⟩ := h
    by_cases hc : c = '\n'
    · subst hc
      refine ih ⟨?_, ?_, rfl⟩
      · simp only [Position.past_offset]
        have hfeed : '\n'.utf8Size = 1 := rfl
        have hreturn : '\r'.utf8Size = 1 := rfl
        simp only [Position.past, if_true]
        omega
      · simp [Position.past, hline]
    · rw [crlf_cons hc]
      refine ih ⟨?_, ?_, ?_⟩
      · simp only [Position.past, if_neg hc]
        omega
      · simp [Position.past, hc, hline]
      · simp [Position.past, hc, hcolumn]

/-- The token that corresponds to a token. Where tokens stop is left out. -/
structure Token.Widens (t t' : Token) : Prop where
  kind : t'.kind = t.kind
  text : t'.text.toList = crlf t.text.toList
  start : t.start.Widens t'.start
  /-- Their physical lines are the same but for the line ends. -/
  trimmed : trimLineEnds t'.line.toList = trimLineEnds t.line.toList

/-- The error that corresponds to an error: the same one at the corresponding place. -/
inductive LexError.Widens : LexError → LexError → Prop
  | unterminatedString {p p' : Position} : p.Widens p' →
      Widens (.unterminatedString p) (.unterminatedString p')
  | inconsistentDedent {p p' : Position} : p.Widens p' →
      Widens (.inconsistentDedent p) (.inconsistentDedent p')
  | unexpectedCharacter {p p' : Position} (c : Char) : p.Widens p' →
      Widens (.unexpectedCharacter p c) (.unexpectedCharacter p' c)

namespace Lexer

open Scan

/-- **The reader that corresponds to a reader.** It stands at the corresponding place of the widened
source and knows the same about lines. -/
structure Widens (lx lx' : Lexer) : Prop where
  /-- The source has no carriage returns of its own. -/
  plain : '\r' ∉ lx.ahead
  behind : lx'.behind.reverse = crlf lx.behind.reverse
  ahead : lx'.ahead = crlf lx.ahead
  here : lx.here.Widens lx'.here
  indents : lx'.indents = lx.indents
  depth : lx'.depth = lx.depth
  atLineStart : lx'.atLineStart = lx.atLineStart
  lineHasContent : lx'.lineHasContent = lx.lineHasContent
  pendingDedents : lx'.pendingDedents = lx.pendingDedents

/-- Two steps that give corresponding tokens, or corresponding errors. -/
inductive StepWidens : Step → Step → Prop
  | token {t t' : Token} {rest rest' : Lexer} : t.Widens t' → rest.Widens rest' →
      StepWidens (.ok t, rest) (.ok t', rest')
  | error {e e' : LexError} (rest rest' : Lexer) : e.Widens e' →
      StepWidens (.error e, rest) (.error e', rest')

theorem widens_ofChars {text : List Char} (h : '\r' ∉ text) :
    (ofChars text).Widens (ofChars (crlf text)) where
  plain := h
  behind := rfl
  ahead := rfl
  here := Position.widens_origin
  indents := rfl
  depth := rfl
  atLineStart := rfl
  lineHasContent := rfl
  pendingDedents := rfl

section

variable {lx lx' : Lexer}

theorem Widens.indent (h : lx.Widens lx') : lx'.indent = lx.indent := by
  rw [Lexer.indent, Lexer.indent, h.indents]

/-- Corresponding readers stay so across a stretch of the text. -/
theorem Widens.advance (h : lx.Widens lx') {n n' : Nat} (hn : crlfLength lx.ahead n = n') :
    (lx.advance n).Widens (lx'.advance n') := by
  subst hn
  have htake : lx'.ahead.take (crlfLength lx.ahead n) = crlf (lx.ahead.take n) := by
    rw [h.ahead, take_crlf]
  exact { h with
    plain := fun hmem => h.plain (List.mem_of_mem_drop hmem)
    behind := by simp [Lexer.advance, htake, h.behind]
    ahead := by simp [h.ahead]
    here := by
      simp only [Lexer.advance, htake]
      exact h.here.across _ }

theorem Widens.trimmed (h : lx.Widens lx') :
    trimLineEnds lx'.physicalLine = trimLineEnds lx.physicalLine := by
  have hbehind : lx'.behind.takeWhile (· ≠ '\n') = lx.behind.takeWhile (· ≠ '\n') := by
    have hsame := takeWhile_reverse_crlf lx.behind.reverse
    rwa [← h.behind, List.reverse_reverse, List.reverse_reverse] at hsame
  have hfront : '\n' ∉ (lx.behind.takeWhile (· ≠ '\n')).reverse := fun hmem => by
    simpa using List.mem_takeWhile_imp (List.mem_reverse.1 hmem)
  rw [physicalLine, physicalLine, hbehind, h.ahead, firstLine_crlf, ← crlf_of_notMem hfront,
    ← crlf_append, crlf_of_notMem hfront]
  exact ((isLine_firstLine lx.ahead).append hfront).trimLineEnds_crlf

theorem Widens.token (h : lx.Widens lx') (kind : Token.Kind) {n n' : Nat}
    (hn : crlfLength lx.ahead n = n') : (lx.token kind n).Widens (lx'.token kind n') where
  kind := rfl
  text := by simp [Lexer.token, ← hn, h.ahead]
  start := h.here
  trimmed := by simpa [Lexer.token] using h.trimmed

theorem Widens.content (h : lx.Widens lx') (kind : Token.Kind) {n n' : Nat}
    (hn : crlfLength lx.ahead n = n') : StepWidens (lx.content kind n) (lx'.content kind n') :=
  .token (h.token kind hn) { h.advance hn with lineHasContent := rfl }

theorem Widens.comment (h : lx.Widens lx') : StepWidens lx.comment lx'.comment := by
  have hn : crlfLength lx.ahead (lx.ahead.takeWhile fun c => !endsLine c).length =
      (lx'.ahead.takeWhile fun c => !endsLine c).length := by
    rw [h.ahead, takeWhile_crlf (by decide) (by decide), crlfLength_takeWhile (by decide)]
  exact .token (h.token .comment hn) (h.advance hn)

theorem Widens.lineBreak (h : lx.Widens lx') : StepWidens lx.lineBreak lx'.lineBreak := by
  have hn : crlfLength lx.ahead (breakLength lx.ahead) = breakLength lx'.ahead := by
    rw [h.ahead, crlf_breakLength h.plain]
  unfold Lexer.lineBreak
  rw [h.depth, h.lineHasContent]
  exact .token { h.token _ hn with } { h.advance hn with atLineStart := rfl, lineHasContent := rfl }

theorem Widens.endOfSource (h : lx.Widens lx') : StepWidens lx.endOfSource lx'.endOfSource := by
  unfold Lexer.endOfSource
  by_cases hcontent : lx.lineHasContent = true
  · rw [if_pos hcontent, if_pos (h.lineHasContent.trans hcontent)]
    exact .token (h.token .newline rfl) { h with lineHasContent := rfl }
  have hcontent' : ¬ lx'.lineHasContent = true := by rwa [h.lineHasContent]
  rw [if_neg hcontent, if_neg hcontent']
  by_cases hopen : lx.indents.length > 1
  · have hopen' : lx'.indents.length > 1 := by rwa [h.indents]
    rw [if_pos hopen, if_pos hopen']
    exact .token (h.token .dedent rfl) { h with indents := congrArg (List.drop 1) h.indents }
  · have hopen' : ¬ lx'.indents.length > 1 := by rwa [h.indents]
    rw [if_neg hopen, if_neg hopen']
    exact .token (h.token .endMarker rfl) h

/-- A literal is closed in the one source if it is in the other. -/
theorem Widens.literal (h : lx.Widens lx') {letters : Nat}
    (hletters : crlfLength lx.ahead letters = letters) {quote : Char} {rest : List Char}
    (hahead : lx.ahead.drop letters = quote :: rest) (hquote : isQuote quote = true) :
    StepWidens (lx.literal letters) (lx'.literal letters) := by
  have hdrop : lx'.ahead.drop letters = crlf (quote :: rest) := by
    have hbehind := drop_crlf lx.ahead letters
    rwa [hletters, hahead, ← h.ahead] at hbehind
  have hrest : '\r' ∉ rest := fun hmem =>
    h.plain (List.mem_of_mem_drop (hahead ▸ List.mem_cons_of_mem quote hmem))
  unfold Lexer.literal
  rw [hdrop, crlf_literalLength hquote hrest, hahead]
  dsimp only
  split
  · refine h.content _ ?_
    rw [crlfLength_add, hletters, hahead]
  · exact .error _ _ (.unterminatedString h.here)

theorem Widens.nameOrLiteral (h : lx.Widens lx') :
    StepWidens lx.nameOrLiteral lx'.nameOrLiteral := by
  have hsame : lx'.ahead.takeWhile isIdentPart = lx.ahead.takeWhile isIdentPart := by
    rw [h.ahead, takeWhile_crlf (by decide) (by decide)]
  have hletters := crlfLength_takeWhile (p := isIdentPart) (by decide) lx.ahead
  have htake : lx'.ahead.take (lx.ahead.takeWhile isIdentPart).length =
      lx.ahead.take (lx.ahead.takeWhile isIdentPart).length := by
    rw [← List.prefix_iff_eq_take.1 (List.takeWhile_prefix isIdentPart), ← hsame,
      ← List.prefix_iff_eq_take.1 (List.takeWhile_prefix isIdentPart)]
  have hdrop : lx'.ahead.drop (lx.ahead.takeWhile isIdentPart).length =
      crlf (lx.ahead.drop (lx.ahead.takeWhile isIdentPart).length) := by
    rw [h.ahead, ← drop_crlf, hletters]
  unfold Lexer.nameOrLiteral
  rw [hsame]
  dsimp only
  rw [htake, hdrop]
  generalize (lx.ahead.takeWhile isIdentPart).length = n at hletters
  cases hbehind : lx.ahead.drop n with
  | nil => simpa using h.content _ hletters
  | cons quote rest =>
    by_cases hquote : isQuote quote = true
    · have hfeed : quote ≠ '\n' := by rintro rfl; revert hquote; decide
      rw [crlf_cons hfeed, List.take_succ_cons, List.take_succ_cons, List.take_zero, List.take_zero]
      split
      · exact h.literal hletters hbehind hquote
      · exact h.content _ hletters
    · have hnone : (((crlf (quote :: rest)).take 1).any isQuote) = false := by
        by_cases hfeed : quote = '\n'
        · subst hfeed
          rfl
        · simp [crlf_cons hfeed, hquote]
      have hnone' : ((quote :: rest).take 1).any isQuote = false := by simpa using hquote
      rw [hnone, hnone', Bool.false_and, if_neg (by simp), if_neg (by simp)]
      exact h.content _ hletters

theorem Widens.operator (h : lx.Widens lx') (first : Char) :
    StepWidens (lx.operator first) (lx'.operator first) := by
  have hn : operatorLength lx'.ahead = operatorLength lx.ahead := by
    rw [h.ahead, crlf_operatorLength]
  have hlength := crlfLength_operator lx.ahead
  unfold Lexer.operator
  rw [hn, h.depth]
  generalize operatorLength lx.ahead = n at hlength
  match n with
  | 0 => exact .error _ _ (.unexpectedCharacter first h.here)
  | n + 1 =>
    have hnested : ({ lx with depth := nest lx.depth first } : Lexer).Widens
        { lx' with depth := nest lx.depth first } := { h with depth := rfl }
    exact hnested.content .operator hlength

theorem Widens.pastBlanks (h : lx.Widens lx') : lx.pastBlanks.Widens lx'.pastBlanks :=
  h.advance (by rw [h.ahead, crlf_blankLength h.plain])

/-- **Corresponding readers take corresponding steps on a line.** -/
theorem Widens.lineToken (h : lx.Widens lx') : StepWidens lx.lineToken lx'.lineToken := by
  have hpast := h.pastBlanks
  have hahead' := hpast.ahead
  cases hahead : lx.pastBlanks.ahead with
  | nil =>
    rw [hahead] at hahead'
    rw [lineToken_nil hahead, lineToken_nil hahead']
    exact hpast.endOfSource
  | cons c rest =>
    by_cases hfeed : c = '\n'
    · subst hfeed
      rw [hahead, crlf_feed] at hahead'
      rw [lineToken_lineBreak hahead (by decide), lineToken_lineBreak hahead' (by decide)]
      exact hpast.lineBreak
    rw [hahead, crlf_cons hfeed] at hahead'
    have hreturn : c ≠ '\r' := by
      rintro rfl
      exact hpast.plain (hahead ▸ List.mem_cons_self)
    by_cases hcomment : c = '#'
    · subst hcomment
      rw [lineToken_comment hahead, lineToken_comment hahead']
      exact hpast.comment
    have hend : endsLine c = false := by simp [endsLine, hfeed, hreturn]
    have hnumber := crlf_startsNumber (c :: rest)
    have hlength := crlf_numberLength (c :: rest)
    rw [crlf_cons hfeed] at hnumber hlength
    rw [lineToken_cons hahead hcomment hend, lineToken_cons hahead' hcomment hend, hnumber, hlength]
    split
    · refine hpast.content _ ?_
      rw [hahead, crlfLength_cons hfeed, crlfLength_zero]
    split
    · refine hpast.content _ ?_
      rw [hahead, crlfLength_number]
    split
    · next hquote => exact hpast.literal rfl hahead hquote
    split
    · exact hpast.nameOrLiteral
    · exact hpast.operator c

/-- Corresponding readers find the same indentation. -/
theorem Widens.indentation (h : lx.Widens lx') :
    Option.Rel StepWidens lx.indentation lx'.indentation := by
  have hgap : crlfLength lx.ahead lx.gapLength = lx'.gapLength := by
    rw [gapLength, gapLength, h.ahead, takeWhile_crlf (by decide) (by decide),
      crlfLength_takeWhile (by decide)]
  have hadvance := h.advance hgap
  have hdedented : lx.dedented.Widens lx'.dedented := { hadvance with
    indents := by simp [dedented, h.indents, h.ahead, crlf_indentWidth] }
  rw [indentation_eq, indentation_eq, hdedented.indent, hdedented.indents, h.indent, h.indents,
    h.ahead, crlf_isBlankLine, crlf_isCommentLine, crlf_indentWidth]
  split
  · exact .none
  split
  · exact .some (.token (h.token .indent hgap) { hadvance with indents := rfl })
  split
  · split
    · exact .some (.token (hdedented.token .dedent rfl) { hdedented with pendingDedents := rfl })
    · exact .some (.error _ _ (.inconsistentDedent hdedented.here))
  · exact .none

/-- **Corresponding readers take corresponding steps.** -/
theorem Widens.next (h : lx.Widens lx') : StepWidens lx.next lx'.next := by
  have hline : lx.onLine.Widens lx'.onLine := { h with atLineStart := rfl }
  have hindent := hline.indentation
  rcases lx.next_cases with hpending | ⟨hpending, hstart, hdepth, step, hstep⟩ | hat
  · rw [next_of_pending hpending, next_of_pending (by rwa [h.pendingDedents])]
    exact .token (h.token .dedent rfl)
      { h with pendingDedents := congrArg (· - 1) h.pendingDedents }
  · rw [hstep] at hindent
    obtain ⟨step', hstep', hwidens⟩ : ∃ step', lx'.onLine.indentation = some step' ∧
        StepWidens step step' := by
      generalize lx'.onLine.indentation = found' at hindent
      cases hindent with
      | some hwidens => exact ⟨_, rfl, hwidens⟩
    rw [next_of_indentation hpending hstart hdepth hstep,
      next_of_indentation (h.pendingDedents.trans hpending) (h.atLineStart.trans hstart)
        (h.depth.trans hdepth) hstep']
    exact hwidens
  · have hat' : lx'.AtToken := by
      refine ⟨h.pendingDedents.trans hat.1, fun hstart hdepth => ?_⟩
      rw [hat.2 (h.atLineStart.symm.trans hstart) (h.depth.symm.trans hdepth)] at hindent
      generalize lx'.onLine.indentation = found' at hindent
      cases hindent
      rfl
    rw [next_of_atToken hat, next_of_atToken hat']
    exact hline.lineToken

end

end Lexer

end Quasiquote
