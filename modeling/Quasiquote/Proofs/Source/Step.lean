import Quasiquote.Proofs.Source.Operator
import Quasiquote.Source.Lexer

/-!
# What one step of a reader can do

Every step of a reader falls under one of a few cases. This file lists them once, so that no other
proof has to open the reader's own rules.

## Main Definitions

* `Scan.lexeme` — the kind and the length of a token that makes its line a logical one
* `Scan.Separates` — text that may stand between two tokens
* `Lexer.AtToken` — the next token is one of the line ahead, not one of its indentation
* `Lexer.Moves` — a reader further on in the same text, and the text between
* `Lexer.Takes` — a reader that takes a token, and the text before the token

## Main Statements

* `Lexer.next_cases`, `Lexer.lineToken_cases` — the cases of a step that gives a token
* `Lexer.separated_next` — a token is a stretch of the text ahead, with separating text before it

## Design Notes

A token is determined by the text ahead and by what the reader knows of its line. What lies behind a
reader, and its position, only go into the positions and the physical line of the token.
-/

namespace Quasiquote

namespace Scan

/-! ### Lexemes -/

/-- The string literal that begins with `letters` letters. -/
def literalLexeme (text : List Char) (letters : Nat) : Option (Token.Kind × Nat) :=
  let found := literalLength (text.drop letters)
  if found.2 then some (.string, letters + found.1) else none

/-- The identifier at the beginning of a text, or the literal whose letters it turns out to be. -/
def nameLexeme (text : List Char) : Option (Token.Kind × Nat) :=
  let n := (text.takeWhile isIdentPart).length
  if ((text.drop n).take 1).any isQuote && isLiteralPrefix (text.take n) then literalLexeme text n
  else some (.name, n)

/-- The operator at the beginning of a text. -/
def operatorLexeme (text : List Char) : Option (Token.Kind × Nat) :=
  match operatorLength text with
  | 0 => none
  | n + 1 => some (.operator, n + 1)

/-- The kind and the length of the token that begins with the first character of a text and makes
its line a logical one, if there is such a token. -/
def lexeme : List Char → Option (Token.Kind × Nat)
  | [] => none
  | c :: rest =>
    if c = '$' then some (.marker, 1)
    else if startsNumber (c :: rest) then some (.number, numberLength (c :: rest))
    else if isQuote c then literalLexeme (c :: rest) 0
    else if isIdentStart c then nameLexeme (c :: rest)
    else operatorLexeme (c :: rest)

@[simp] theorem lexeme_nil : lexeme [] = none := rfl

theorem lexeme_cons (c : Char) (rest : List Char) :
    lexeme (c :: rest) =
      if c = '$' then some (.marker, 1)
      else if startsNumber (c :: rest) then some (.number, numberLength (c :: rest))
      else if isQuote c then literalLexeme (c :: rest) 0
      else if isIdentStart c then nameLexeme (c :: rest)
      else operatorLexeme (c :: rest) := rfl

/-- The characters that open and close nesting. -/
def brackets : List Char := "()[]\x7b\x7d".toList

theorem nest_of_not_bracket {c : Char} (hc : c ∉ brackets) (depth : Nat) :
    nest depth c = depth := by
  have hopen : ¬ (c = '(' ∨ c = '[' ∨ c = '\x7b') := by
    rintro (rfl | rfl | rfl) <;> exact hc (by decide)
  have hclose : ¬ (c = ')' ∨ c = ']' ∨ c = '\x7d') := by
    rintro (rfl | rfl | rfl) <;> exact hc (by decide)
  rw [nest, if_neg hopen, if_neg hclose]

theorem not_bracket_of {p : Char → Bool} (hp : ∀ c ∈ brackets, p c = false) {c : Char}
    (hc : p c = true) : c ∉ brackets := fun hmem => by
  simp [hp c hmem] at hc

theorem not_bracket_of_startsNumber {c : Char} {rest : List Char}
    (h : startsNumber (c :: rest) = true) : c ∉ brackets := by
  unfold startsNumber at h
  split at h
  · next heq =>
    cases heq
    decide
  · next heq =>
    cases heq
    exact not_bracket_of (by decide) h
  · simp at h

/-- Whether some lexeme begins with this character. -/
def startsLexeme (c : Char) : Bool :=
  c == '$' || c.isDigit || isQuote c || isIdentStart c || operators1.contains c

theorem startsLexeme_of_startsNumber {c : Char} {rest : List Char}
    (h : startsNumber (c :: rest) = true) : startsLexeme c = true := by
  unfold startsNumber at h
  split at h
  · next heq =>
    cases heq
    decide
  · next heq =>
    cases heq
    simp [startsLexeme, h]
  · simp at h

/-- The ways in which a lexeme can begin. -/
theorem lexeme_cases {c : Char} {rest : List Char} {kind : Token.Kind} {n : Nat}
    (h : lexeme (c :: rest) = some (kind, n)) :
    (c = '$' ∧ kind = .marker ∧ n = 1) ∨
    (startsNumber (c :: rest) = true ∧ kind = .number ∧ n = numberLength (c :: rest)) ∨
    (isQuote c = true ∧ literalLexeme (c :: rest) 0 = some (kind, n)) ∨
    (isIdentStart c = true ∧ startsNumber (c :: rest) = false ∧ isQuote c = false ∧
      nameLexeme (c :: rest) = some (kind, n)) ∨
    (c ∈ operators1 ∧ startsNumber (c :: rest) = false ∧ isIdentStart c = false ∧
      kind = .operator ∧ n = operatorLength (c :: rest)) := by
  rw [lexeme_cons] at h
  split at h
  · next hc =>
    cases h
    exact .inl ⟨hc, rfl, rfl⟩
  split at h
  · next hnumber =>
    cases h
    exact .inr (.inl ⟨hnumber, rfl, rfl⟩)
  split at h
  · next hquote => exact .inr (.inr (.inl ⟨hquote, h⟩))
  split at h
  · next hnumber hquote hident =>
    exact .inr (.inr (.inr (.inl ⟨hident, by simpa using hnumber, by simpa using hquote, h⟩)))
  · next hnumber hquote hident =>
    refine .inr (.inr (.inr (.inr ?_)))
    by_cases hc : c ∈ operators1
    · refine ⟨hc, by simpa using hnumber, by simpa using hident, ?_⟩
      unfold operatorLexeme at h
      split at h
      · simp at h
      · next hlen =>
        cases h
        exact ⟨rfl, hlen.symm⟩
    · simp [operatorLexeme, operatorLength_eq_zero hc] at h

theorem startsLexeme_of_lexeme {c : Char} {rest : List Char} {kind : Token.Kind} {n : Nat}
    (h : lexeme (c :: rest) = some (kind, n)) : startsLexeme c = true := by
  rcases lexeme_cases h with ⟨rfl, -⟩ | ⟨hc, -⟩ | ⟨hc, -⟩ | ⟨hc, -⟩ | ⟨hc, -⟩
  · decide
  · exact startsLexeme_of_startsNumber hc
  · simp [startsLexeme, hc]
  · simp [startsLexeme, hc]
  · simp [startsLexeme, hc]

/-! ### Blanks -/

/-- **Text that may stand between two tokens,** in front of a rest: spaces, tabs, form feeds, carriage
returns without a line feed behind them, and backslashes that join two lines. -/
inductive Separates : List Char → List Char → Prop
  | nil (rest : List Char) : Separates [] rest
  | gap {c : Char} {text rest : List Char} : isGap c = true → Separates text rest →
      Separates (c :: text) rest
  | carriageReturn {text rest : List Char} : (text ++ rest).head? ≠ some '\n' →
      Separates text rest → Separates ('\r' :: text) rest
  | join {text rest : List Char} : Separates text rest → Separates ('\\' :: '\n' :: text) rest
  | joinCrlf {text rest : List Char} : Separates text rest →
      Separates ('\\' :: '\r' :: '\n' :: text) rest

/-- What a reader passes over before a token separates. -/
theorem separates_blanks (text : List Char) :
    Separates (text.take (blankLength text)) (text.drop (blankLength text)) := by
  fun_induction blankLength text with
  | case1 text ih => exact .join ih
  | case2 text ih => exact .joinCrlf ih
  | case3 text => exact .nil _
  | case4 c text hjoin hcrlf hreturn hblank ih =>
    by_cases hgap : isGap c = true
    · exact .gap hgap ih
    · -- the blanks go on with a carriage return, which no line feed follows
      have hc : c = '\r' := by simpa [hgap] using hblank
      subst hc
      refine .carriageReturn ?_ ih
      rw [List.drop_succ_cons, List.take_append_drop]
      intro hfeed
      obtain ⟨rest, rfl⟩ := List.head?_eq_some_iff.1 hfeed
      exact hreturn rest rfl rfl
  | case5 => exact .nil _
  | case6 => exact .nil _

/-- An indentation separates. -/
theorem separates_indentation (text rest : List Char) : Separates (text.takeWhile isGap) rest := by
  induction text with
  | nil => exact .nil _
  | cons c text ih =>
    rw [List.takeWhile_cons]
    split
    · next hc => exact .gap hc ih
    · exact .nil _

end Scan

namespace Lexer

/-! ### The line ahead -/

/-- The reader behind what separates the next token from the last one. -/
def pastBlanks (lx : Lexer) : Lexer := lx.advance (Scan.blankLength lx.ahead)

/-- The reader that has dealt with the indentation of the line ahead. -/
def onLine (lx : Lexer) : Lexer := { lx with atLineStart := false }

/-- The step that reads a lexeme. -/
def lexemeStep (lx : Lexer) (first : Char) (kind : Token.Kind) (n : Nat) : Step :=
  (.ok (lx.token kind n),
    { lx.advance n with depth := Scan.nest lx.depth first, lineHasContent := true })

theorem lineToken_nil {lx : Lexer} (ha : lx.pastBlanks.ahead = []) :
    lx.lineToken = lx.pastBlanks.endOfSource := by
  rw [pastBlanks] at ha ⊢
  simp only [lineToken, ha]

theorem lineToken_comment {lx : Lexer} {text : List Char} (ha : lx.pastBlanks.ahead = '#' :: text) :
    lx.lineToken = lx.pastBlanks.comment := by
  rw [pastBlanks] at ha ⊢
  simp only [lineToken, ha, if_true]

theorem lineToken_lineBreak {lx : Lexer} {c : Char} {text : List Char}
    (ha : lx.pastBlanks.ahead = c :: text) (hend : Scan.endsLine c = true) :
    lx.lineToken = lx.pastBlanks.lineBreak := by
  have hcomment : c ≠ '#' := by
    rintro rfl
    simp [Scan.endsLine] at hend
  rw [pastBlanks] at ha ⊢
  simp only [lineToken, ha, if_neg hcomment, hend, if_true]

/-- A step reads the lexeme that was found, and is an error without one. -/
def ReadsLexeme (lx : Lexer) (first : Char) (found : Option (Token.Kind × Nat)) (step : Step) :
    Prop :=
  match found with
  | some (kind, n) => step = lx.lexemeStep first kind n
  | none => ∃ e rest, step = (.error e, rest)

theorem content_eq_lexemeStep {lx : Lexer} {first : Char} (h : first ∉ Scan.brackets)
    (kind : Token.Kind) (n : Nat) : lx.content kind n = lx.lexemeStep first kind n := by
  simp [content, lexemeStep, Scan.nest_of_not_bracket h]

theorem readsLexeme_literal (lx : Lexer) {first : Char} (h : first ∉ Scan.brackets)
    (letters : Nat) :
    lx.ReadsLexeme first (Scan.literalLexeme lx.ahead letters) (lx.literal letters) := by
  simp only [literal, Scan.literalLexeme]
  split
  · exact content_eq_lexemeStep h _ _
  · exact ⟨_, _, rfl⟩

theorem readsLexeme_nameOrLiteral (lx : Lexer) {first : Char} (h : first ∉ Scan.brackets) :
    lx.ReadsLexeme first (Scan.nameLexeme lx.ahead) lx.nameOrLiteral := by
  simp only [nameOrLiteral, Scan.nameLexeme]
  split
  · exact readsLexeme_literal lx h _
  · exact content_eq_lexemeStep h _ _

theorem readsLexeme_operator (lx : Lexer) (first : Char) :
    lx.ReadsLexeme first (Scan.operatorLexeme lx.ahead) (lx.operator first) := by
  unfold operator Scan.operatorLexeme
  cases Scan.operatorLength lx.ahead with
  | zero => exact ⟨_, _, rfl⟩
  | succ n => exact rfl

/-- The step of a line whose next character is neither a comment's nor a line end's. -/
theorem lineToken_cons {lx : Lexer} {c : Char} {text : List Char}
    (ha : lx.pastBlanks.ahead = c :: text) (hcomment : c ≠ '#') (hend : Scan.endsLine c = false) :
    lx.lineToken =
      if c = '$' then lx.pastBlanks.content .marker 1
      else if Scan.startsNumber (c :: text) then
        lx.pastBlanks.content .number (Scan.numberLength (c :: text))
      else if Scan.isQuote c then lx.pastBlanks.literal 0
      else if Scan.isIdentStart c then lx.pastBlanks.nameOrLiteral
      else lx.pastBlanks.operator c := by
  rw [pastBlanks] at ha ⊢
  simp only [lineToken, ha, if_neg hcomment, hend, Bool.false_eq_true, if_false]

/-- Such a step reads a lexeme. -/
theorem readsLexeme_lineToken {lx : Lexer} {c : Char} {text : List Char}
    (ha : lx.pastBlanks.ahead = c :: text) (hcomment : c ≠ '#') (hend : Scan.endsLine c = false) :
    lx.pastBlanks.ReadsLexeme c (Scan.lexeme (c :: text)) lx.lineToken := by
  rw [lineToken_cons ha hcomment hend, Scan.lexeme_cons, ← ha]
  split
  · next hmarker => exact content_eq_lexemeStep (hmarker ▸ by decide) _ _
  split
  · next hnumber =>
    rw [ha] at hnumber
    exact content_eq_lexemeStep (Scan.not_bracket_of_startsNumber hnumber) _ _
  split
  · next hquote =>
    exact readsLexeme_literal _
      (Scan.not_bracket_of (p := Scan.isQuote) (by decide) hquote) 0
  split
  · next hident =>
    exact readsLexeme_nameOrLiteral _
      (Scan.not_bracket_of (p := Scan.isIdentStart) (by decide) hident)
  · exact readsLexeme_operator _ c

/-- The cases of a step of the line that gives a token. -/
theorem lineToken_cases {lx rest : Lexer} {t : Token} (h : lx.lineToken = (.ok t, rest)) :
    (lx.pastBlanks.ahead = [] ∧ lx.pastBlanks.endOfSource = (.ok t, rest)) ∨
    (∃ text, lx.pastBlanks.ahead = '#' :: text ∧ lx.pastBlanks.comment = (.ok t, rest)) ∨
    (∃ c text, lx.pastBlanks.ahead = c :: text ∧ Scan.endsLine c = true ∧
      lx.pastBlanks.lineBreak = (.ok t, rest)) ∨
    (∃ c text kind n, lx.pastBlanks.ahead = c :: text ∧
      Scan.lexeme (c :: text) = some (kind, n) ∧
      lx.pastBlanks.lexemeStep c kind n = (.ok t, rest)) := by
  cases ha : lx.pastBlanks.ahead with
  | nil => exact .inl ⟨rfl, (lineToken_nil ha).symm.trans h⟩
  | cons c text =>
    by_cases hcomment : c = '#'
    · subst hcomment
      exact .inr (.inl ⟨text, rfl, (lineToken_comment ha).symm.trans h⟩)
    by_cases hend : Scan.endsLine c = true
    · exact .inr (.inr (.inl ⟨c, text, rfl, hend, (lineToken_lineBreak ha hend).symm.trans h⟩))
    · refine .inr (.inr (.inr ?_))
      have hreads := readsLexeme_lineToken ha hcomment (by simpa using hend)
      cases hl : Scan.lexeme (c :: text) with
      | none =>
        rw [hl] at hreads
        obtain ⟨e, after, herror⟩ := hreads
        rw [h] at herror
        simp at herror
      | some found =>
        rw [hl] at hreads
        exact ⟨c, text, found.1, found.2, rfl, hl, hreads.symm.trans h⟩

/-- Where a lexeme begins behind the blanks, the step of the line reads it. -/
theorem lineToken_of_lexeme {lx : Lexer} {c : Char} {text : List Char} {kind : Token.Kind} {n : Nat}
    (ha : lx.pastBlanks.ahead = c :: text) (hl : Scan.lexeme (c :: text) = some (kind, n)) :
    lx.lineToken = lx.pastBlanks.lexemeStep c kind n := by
  have hstart := Scan.startsLexeme_of_lexeme hl
  -- no comment and no line break begins like a lexeme
  have hseparator : ∀ d, Scan.startsLexeme d = false → c ≠ d := by
    rintro d hd rfl
    simp [hd] at hstart
  have hend : Scan.endsLine c = false := by
    simp [Scan.endsLine, hseparator '\n' (by decide), hseparator '\r' (by decide)]
  have hreads := readsLexeme_lineToken ha (hseparator '#' (by decide)) hend
  rwa [hl] at hreads

/-! ### The next token -/

/-- The next token is one of the line ahead: no dedent is due, and the line's indentation gives no
token. -/
def AtToken (lx : Lexer) : Prop :=
  lx.pendingDedents = 0 ∧
    (lx.atLineStart = true → lx.depth = 0 → lx.onLine.indentation = none)

theorem next_eq (lx : Lexer) :
    lx.next =
      if lx.pendingDedents > 0 then
        (.ok (lx.token .dedent 0), { lx with pendingDedents := lx.pendingDedents - 1 })
      else if lx.atLineStart then
        if lx.depth = 0 then lx.onLine.indentation.getD lx.onLine.lineToken
        else lx.onLine.lineToken
      else lx.lineToken := rfl

theorem next_of_pending {lx : Lexer} (h : 0 < lx.pendingDedents) :
    lx.next = (.ok (lx.token .dedent 0), { lx with pendingDedents := lx.pendingDedents - 1 }) := by
  rw [next_eq, if_pos h]

theorem next_of_atToken {lx : Lexer} (h : lx.AtToken) : lx.next = lx.onLine.lineToken := by
  obtain ⟨hpending, hline⟩ := h
  rw [next_eq, if_neg (by omega)]
  split
  · next hstart =>
    split
    · next hdepth => rw [hline hstart hdepth, Option.getD_none]
    · rfl
  · next hstart =>
    have hsame : lx.onLine = lx := by
      cases lx
      simp_all [onLine]
    rw [hsame]

theorem next_of_indentation {lx : Lexer} {step : Step} (hpending : lx.pendingDedents = 0)
    (hstart : lx.atLineStart = true) (hdepth : lx.depth = 0)
    (h : lx.onLine.indentation = some step) : lx.next = step := by
  rw [next_eq, if_neg (by omega), if_pos hstart, if_pos hdepth, h, Option.getD_some]

/-- A reader has a dedent due, or indentation to turn into a token, or is at a token of its
line. -/
theorem next_cases (lx : Lexer) :
    (0 < lx.pendingDedents) ∨
    (lx.pendingDedents = 0 ∧ lx.atLineStart = true ∧ lx.depth = 0 ∧
      ∃ step, lx.onLine.indentation = some step) ∨
    lx.AtToken := by
  by_cases hpending : 0 < lx.pendingDedents
  · exact .inl hpending
  have hzero : lx.pendingDedents = 0 := by omega
  by_cases hline : lx.atLineStart = true ∧ lx.depth = 0
  · cases hi : lx.onLine.indentation with
    | none => exact .inr (.inr ⟨hzero, fun _ _ => hi⟩)
    | some step => exact .inr (.inl ⟨hzero, hline.1, hline.2, step, rfl⟩)
  · exact .inr (.inr ⟨hzero, fun hstart hdepth => absurd ⟨hstart, hdepth⟩ hline⟩)

/-- The length of the indentation ahead. -/
def gapLength (lx : Lexer) : Nat := (lx.ahead.takeWhile Scan.isGap).length

/-- The reader behind the indentation ahead, with the levels deeper than that indentation closed. -/
def dedented (lx : Lexer) : Lexer :=
  { lx.advance lx.gapLength with
    indents := lx.indents.dropWhile (Scan.indentWidth lx.ahead < ·) }

theorem indentation_eq (lx : Lexer) :
    lx.indentation =
      if Scan.isBlankLine lx.ahead || Scan.isCommentLine lx.ahead then none
      else if lx.indent < Scan.indentWidth lx.ahead then
        some (.ok (lx.token .indent lx.gapLength),
          { lx.advance lx.gapLength with indents := Scan.indentWidth lx.ahead :: lx.indents })
      else if Scan.indentWidth lx.ahead < lx.indent then
        if lx.dedented.indent = Scan.indentWidth lx.ahead then
          some (.ok (lx.dedented.token .dedent 0), { lx.dedented with
            pendingDedents := lx.indents.length - lx.dedented.indents.length - 1 })
        else some (.error (.inconsistentDedent lx.dedented.here), lx.dedented)
      else none := rfl

/-- Indentation gives no token on a blank line, before a comment, or where it has not changed. -/
theorem indentation_eq_none_iff (lx : Lexer) :
    lx.indentation = none ↔
      Scan.isBlankLine lx.ahead = true ∨ Scan.isCommentLine lx.ahead = true ∨
        Scan.indentWidth lx.ahead = lx.indent := by
  unfold indentation
  split
  · next hblank =>
    rw [Bool.or_eq_true] at hblank
    simp [← or_assoc, hblank]
  · next hblank =>
    rw [Bool.or_eq_true, not_or] at hblank
    simp only
    split
    · simp [hblank]
      omega
    split
    · split <;> simp [hblank] <;> omega
    · simp [hblank]
      omega

/-- The cases in which indentation gives a token: a deeper line, or one as deep as an open level. -/
theorem indentation_cases {lx rest : Lexer} {t : Token} (h : lx.indentation = some (.ok t, rest)) :
    (lx.indent < Scan.indentWidth lx.ahead ∧ t = lx.token .indent lx.gapLength ∧
      rest = { lx.advance lx.gapLength with
        indents := Scan.indentWidth lx.ahead :: lx.indents }) ∨
    (Scan.indentWidth lx.ahead < lx.indent ∧ lx.dedented.indent = Scan.indentWidth lx.ahead ∧
      t = lx.dedented.token .dedent 0 ∧
      rest = { lx.dedented with
        pendingDedents := lx.indents.length - lx.dedented.indents.length - 1 }) := by
  unfold indentation at h
  split at h
  · simp at h
  simp only at h
  split at h
  · next hdeeper =>
    cases h
    exact .inl ⟨hdeeper, rfl, rfl⟩
  split at h
  · next hless =>
    split at h
    · next hlevel =>
      cases h
      exact .inr ⟨hless, hlevel, rfl, rfl⟩
    · simp at h
  · simp at h

/-! ### Motion -/

end Lexer

/-- A stretch of text lies across as many lines as it has line feeds. -/
theorem Position.across_line (p : Position) (text : List Char) :
    (p.across text).line = p.line + text.count '\n' := by
  induction text generalizing p with
  | nil => rfl
  | cons c rest ih =>
    rw [Position.across_cons, ih, List.count_cons]
    unfold Position.past
    split
    · next hc => simp [hc]; omega
    · next hc => simp [hc]

/-- A stretch of text without a line feed counts as part of one line. -/
theorem Position.across_eq_along (p : Position) {text : List Char} (h : '\n' ∉ text) :
    p.across text = p.along text := by
  induction text generalizing p with
  | nil => rfl
  | cons c rest ih =>
    rw [List.mem_cons, not_or] at h
    rw [across_cons, ih _ h.2, past, if_neg (Ne.symm h.1)]
    simp [along, Nat.add_assoc, Nat.add_comm 1]

namespace Lexer

/-- A reader is further on in the same text, and `text` lies between. -/
structure Moves (lx : Lexer) (text : List Char) (rest : Lexer) : Prop where
  behind : rest.behind = text.reverse ++ lx.behind
  ahead : lx.ahead = text ++ rest.ahead
  here : rest.here = lx.here.across text

theorem Moves.refl (lx : Lexer) : lx.Moves [] lx := ⟨rfl, rfl, rfl⟩

theorem Moves.trans {a b c : Lexer} {first second : List Char} (hab : a.Moves first b)
    (hbc : b.Moves second c) : a.Moves (first ++ second) c where
  behind := by rw [hbc.behind, hab.behind, List.reverse_append, List.append_assoc]
  ahead := by rw [hab.ahead, hbc.ahead, List.append_assoc]
  here := by rw [hbc.here, hab.here, Position.across_append]

/-- Where a reader stands, without what it knows about lines. -/
def place (lx : Lexer) : List Char × List Char × Position := (lx.behind, lx.ahead, lx.here)

/-- Motion is a matter of places. -/
theorem Moves.congr {lx lx' rest rest' : Lexer} {text : List Char} (h : lx.Moves text rest)
    (hlx : lx'.place = lx.place) (hrest : rest'.place = rest.place) : lx'.Moves text rest' := by
  simp only [place, Prod.mk.injEq] at hlx hrest
  obtain ⟨hb, ha, hh⟩ := hlx
  obtain ⟨hb', ha', hh'⟩ := hrest
  exact ⟨by rw [hb', hb, h.behind], by rw [ha', ha, h.ahead], by rw [hh', hh, h.here]⟩

theorem moves_advance (lx : Lexer) (n : Nat) : lx.Moves (lx.ahead.take n) (lx.advance n) :=
  ⟨rfl, (List.take_append_drop n lx.ahead).symm, rfl⟩

/-- A token stands where the reader is, behind separating text `gap`, and the reader goes on behind
it. -/
structure Takes (lx : Lexer) (gap : List Char) (t : Token) (rest : Lexer) : Prop where
  moves : lx.Moves (gap ++ t.text.toList) rest
  start : t.start = lx.here.across gap
  stop : t.stop = t.start.across t.text.toList ∨ t.stop = t.start.along t.text.toList

/-- The reader goes on at the byte behind the token. -/
theorem Takes.stop_offset {lx rest : Lexer} {gap : List Char} {t : Token} (h : lx.Takes gap t rest) :
    t.stop.offset = rest.here.offset := by
  rw [h.moves.here, Position.across_append, ← h.start, Position.across_offset]
  rcases h.stop with hstop | hstop
  · rw [hstop, Position.across_offset]
  · rw [hstop]
    rfl

/-- A token without a line feed stands on one line. -/
theorem Takes.oneLine {lx rest : Lexer} {gap : List Char} {t : Token} (h : lx.Takes gap t rest)
    (hfeed : '\n' ∉ t.text.toList) : t.stop.line = t.start.line := by
  rcases h.stop with hstop | hstop
  · rw [hstop, Position.across_line, List.count_eq_zero_of_not_mem hfeed, Nat.add_zero]
  · rw [hstop]
    rfl

theorem Takes.congr {lx lx' rest rest' : Lexer} {gap : List Char} {t : Token}
    (h : lx.Takes gap t rest) (hlx : lx'.place = lx.place) (hrest : rest'.place = rest.place) :
    lx'.Takes gap t rest' where
  moves := h.moves.congr hlx hrest
  start := by
    simp only [place, Prod.mk.injEq] at hlx
    rw [h.start, hlx.2.2]
  stop := h.stop

theorem takes_token (lx : Lexer) (kind : Token.Kind) (n : Nat) :
    lx.Takes [] (lx.token kind n) (lx.advance n) where
  moves := by simpa [token] using lx.moves_advance n
  start := rfl
  stop := .inl (by simp [token, advance])

/-- **The cases of a step at the end of the source:** it ends the line that has begun, closes a level, or
gives the end marker. -/
theorem endOfSource_cases {lx rest : Lexer} {t : Token} (h : lx.endOfSource = (.ok t, rest)) :
    (lx.lineHasContent = true ∧ t = lx.token .newline 0 ∧ rest = { lx with lineHasContent := false }) ∨
    (lx.lineHasContent = false ∧ 1 < lx.indents.length ∧ t = lx.token .dedent 0 ∧
      rest = { lx with indents := lx.indents.drop 1 }) ∨
    (lx.lineHasContent = false ∧ lx.indents.length ≤ 1 ∧ t = lx.token .endMarker 0 ∧ rest = lx) := by
  unfold endOfSource at h
  split at h
  · next hcontent =>
    cases h
    exact .inl ⟨hcontent, rfl, rfl⟩
  next hcontent =>
  split at h
  · next hmore =>
    cases h
    exact .inr (.inl ⟨by simpa using hcontent, hmore, rfl, rfl⟩)
  · next hlast =>
    cases h
    exact .inr (.inr ⟨by simpa using hcontent, by omega, rfl, rfl⟩)

theorem takes_endOfSource {lx rest : Lexer} {t : Token} (h : lx.endOfSource = (.ok t, rest)) :
    lx.Takes [] t rest := by
  have hnone (kind : Token.Kind) : lx.Takes [] (lx.token kind 0) lx := by
    simpa using lx.takes_token kind 0
  rcases endOfSource_cases h with ⟨-, rfl, rfl⟩ | ⟨-, -, rfl, rfl⟩ | ⟨-, -, rfl, rfl⟩
  · exact (hnone .newline).congr rfl rfl
  · exact (hnone .dedent).congr rfl rfl
  · exact hnone .endMarker

/-- Behind separating text, the token that is read next is read first. -/
theorem Takes.behind_gap {lx at_ rest : Lexer} {gap : List Char} {t : Token}
    (hgap : lx.Moves gap at_) (h : at_.Takes [] t rest) : lx.Takes gap t rest where
  moves := by simpa using hgap.trans h.moves
  start := by rw [h.start, Position.across_nil, hgap.here]
  stop := h.stop

theorem takes_lineToken {lx rest : Lexer} {t : Token} (h : lx.lineToken = (.ok t, rest)) :
    lx.Takes (lx.ahead.take (Scan.blankLength lx.ahead)) t rest := by
  refine Takes.behind_gap (lx.moves_advance _) ?_
  rcases lineToken_cases h with ⟨-, h⟩ | ⟨_, -, h⟩ | ⟨_, _, -, -, h⟩ | ⟨c, _, kind, n, -, -, h⟩
  · exact takes_endOfSource h
  · cases h
    exact takes_token _ _ _
  · cases h
    -- a line break counts as columns of the line that it ends
    have htoken := lx.pastBlanks.takes_token .lineBreak (Scan.breakLength lx.pastBlanks.ahead)
    exact ⟨htoken.moves.congr rfl rfl, rfl, .inr (by simp [token])⟩
  · cases h
    exact (lx.pastBlanks.takes_token kind n).congr rfl rfl

/-- **A token is a stretch of the text ahead,** with separating text before it. -/
theorem separated_next {lx rest : Lexer} {t : Token} (h : lx.next = (.ok t, rest)) :
    ∃ gap, Scan.Separates gap (t.text.toList ++ rest.ahead) ∧ lx.Takes gap t rest := by
  rcases lx.next_cases with hpending | ⟨hpending, hstart, hdepth, step, hstep⟩ | hat
  · rw [next_of_pending hpending] at h
    cases h
    have htoken := lx.takes_token .dedent 0
    rw [advance_zero] at htoken
    exact ⟨[], .nil _, htoken.congr rfl rfl⟩
  · rw [next_of_indentation hpending hstart hdepth hstep] at h
    subst h
    rcases indentation_cases hstep with ⟨-, rfl, rfl⟩ | ⟨-, -, rfl, rfl⟩
    · exact ⟨[], .nil _, (lx.onLine.takes_token .indent _).congr rfl rfl⟩
    · -- an indent is the indentation itself, a dedent stands behind it
      have htoken := lx.onLine.dedented.takes_token .dedent 0
      rw [advance_zero] at htoken
      have hgap : lx.ahead.take lx.gapLength = lx.ahead.takeWhile Scan.isGap :=
        (List.prefix_iff_eq_take.1 (List.takeWhile_prefix Scan.isGap)).symm
      refine ⟨lx.ahead.take lx.gapLength, hgap ▸ Scan.separates_indentation lx.ahead _, ?_⟩
      exact .behind_gap ((lx.moves_advance lx.gapLength).congr rfl rfl) (htoken.congr rfl rfl)
  · rw [next_of_atToken hat] at h
    have htakes : lx.Takes (lx.ahead.take (Scan.blankLength lx.ahead)) t rest :=
      (takes_lineToken h).congr rfl rfl
    refine ⟨_, ?_, htakes⟩
    -- the token and the rest are what the blanks leave of the text ahead
    have hsplit := htakes.moves.ahead
    have hblanks := Scan.separates_blanks lx.ahead
    rw [List.append_assoc] at hsplit
    rwa [List.append_cancel_left ((List.take_append_drop _ lx.ahead).trans hsplit)] at hblanks

theorem takes_next {lx rest : Lexer} {t : Token} (h : lx.next = (.ok t, rest)) :
    ∃ gap, lx.Takes gap t rest := by
  obtain ⟨gap, -, htakes⟩ := separated_next h
  exact ⟨gap, htakes⟩

end Lexer

end Quasiquote
