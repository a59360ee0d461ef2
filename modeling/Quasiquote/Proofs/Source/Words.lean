import Quasiquote.Proofs.Source.Parallel

/-!
# Reading a text word by word

What a reader makes of a text whose words are known.

## Main Definitions

* `Lexer.Spells` — a reader that gives tokens with these spellings, and what becomes of it
* `Lexer.Tokenizes` — a reader that gives tokens with these spellings up to the end
* `Scan.Words` — the words of a text up to a rest, each read in front of all that follows it

## Main Statements

* `Lexer.spells_words` — a reader of a line reads the words of the line
* `Lexer.spells_breaks_nested`, `Lexer.spells_breaks_blank` — a reader of line breaks
-/

namespace Quasiquote

/-- Whether a token of this kind makes its line a logical one. -/
def Token.Kind.isWord (kind : Token.Kind) : Bool :=
  kind ∈ [.name, .number, .string, .operator, .marker]

theorem stripMark_of_ne {text : List Char} (h : text.head? ≠ some byteOrderMark) :
    stripMark text = text := by
  cases text with
  | nil => rfl
  | cons c rest => rw [stripMark, if_neg (by simpa using h)]

namespace Lexer

/-! ### Tokens in sequence -/

/-- A reader that gives tokens with these spellings, none of them the end marker. -/
inductive Spells : Lexer → List Spelling → Lexer → Prop
  | nil (lx : Lexer) : Spells lx [] lx
  | cons {lx mid rest : Lexer} {t : Token} {words : List Spelling} : lx.next = (.ok t, mid) →
      t.kind ≠ .endMarker → Spells mid words rest → Spells lx (t.spelling :: words) rest

/-- A reader that gives tokens with these spellings up to the end of its text, and no error. -/
def Tokenizes (lx : Lexer) (words : List Spelling) : Prop :=
  ∃ tokens, lx.run = (tokens, none) ∧ tokens.map Token.spelling = words

theorem Spells.trans {a b c : Lexer} {first second : List Spelling} (hab : a.Spells first b)
    (hbc : b.Spells second c) : a.Spells (first ++ second) c := by
  induction hab with
  | nil => exact hbc
  | cons hnext hk _ ih => exact .cons hnext hk (ih hbc)

theorem Spells.single {lx rest : Lexer} {t : Token} {word : Spelling} (h : lx.next = (.ok t, rest))
    (hword : t.spelling = word) (hk : word.1 ≠ .endMarker) : lx.Spells [word] rest := by
  subst hword
  exact .cons h hk (.nil rest)

theorem run_of_next {lx rest : Lexer} {t : Token} (h : lx.next = (.ok t, rest))
    (hk : t.kind ≠ .endMarker) : lx.run = (t :: rest.run.1, rest.run.2) := by
  rw [run]
  split
  · next heq =>
    rw [h] at heq
    simp at heq
  · next heq =>
    rw [h] at heq
    cases heq
    rw [dif_neg hk]

theorem run_of_end {lx rest : Lexer} {t : Token} (h : lx.next = (.ok t, rest))
    (hk : t.kind = .endMarker) : lx.run = ([t], none) := by
  rw [run]
  split
  · next heq =>
    rw [h] at heq
    simp at heq
  · next heq =>
    rw [h] at heq
    cases heq
    rw [dif_pos hk]

/-- What a reader gives comes first in its run. -/
theorem Spells.run_eq {lx rest : Lexer} {words : List Spelling} (h : lx.Spells words rest) :
    ∃ tokens, lx.run = (tokens ++ rest.run.1, rest.run.2) ∧ tokens.map Token.spelling = words := by
  induction h with
  | nil lx => exact ⟨[], rfl, rfl⟩
  | @cons lx mid rest t words hnext hk _ ih =>
    obtain ⟨tokens, hrun, hwords⟩ := ih
    exact ⟨t :: tokens, by rw [run_of_next hnext hk, hrun]; rfl, by rw [List.map_cons, hwords]⟩

theorem Spells.tokenizes {lx rest : Lexer} {first second : List Spelling} (h : lx.Spells first rest)
    (hrest : rest.Tokenizes second) : lx.Tokenizes (first ++ second) := by
  obtain ⟨front, hfront, rfl⟩ := h.run_eq
  obtain ⟨tokens, hrun, rfl⟩ := hrest
  exact ⟨front ++ tokens, by rw [hfront, hrun], List.map_append⟩

end Lexer

namespace Scan

/-! ### Words -/

/-- The words of a text up to a rest, with spaces or nothing before each. -/
inductive Words : List Char → List Spelling → List Char → Prop
  | nil (text : List Char) : Words text [] text
  | cons (spaces : Nat) {x text : List Char} {kind : Token.Kind} {words : List Spelling}
      {rest : List Char} : x ≠ [] → lexeme (x ++ text) = some (kind, x.length) →
      Words text words rest →
      Words (List.replicate spaces ' ' ++ (x ++ text)) ((kind, String.ofList x) :: words) rest

theorem Words.trans {a b c : List Char} {first second : List Spelling} (hab : Words a first b)
    (hbc : Words b second c) : Words a (first ++ second) c := by
  induction hab with
  | nil => exact hbc
  | cons spaces hne hlexeme _ ih => exact .cons spaces hne hlexeme (ih hbc)

/-- More spaces before the first word change nothing. -/
theorem Words.indent {text rest : List Char} {words : List Spelling} (h : Words text words rest)
    (hne : words ≠ []) (spaces : Nat) : Words (List.replicate spaces ' ' ++ text) words rest := by
  cases h with
  | nil => exact absurd rfl hne
  | cons n hx hlexeme htail =>
    rw [← List.append_assoc, List.replicate_append_replicate]
    exact .cons (spaces + n) hx hlexeme htail

/-- One more word, with nothing before it. -/
theorem words_cons_of_lexeme {w : Spelling} {text rest : List Char} {words : List Spelling}
    (hne : w.2.toList ≠ []) (hlexeme : lexeme (w.2.toList ++ text) = some (w.1, w.2.toList.length))
    (h : Words text words rest) : Words (w.2.toList ++ text) (w :: words) rest := by
  have hcons := Words.cons 0 hne hlexeme h
  rw [String.ofList_toList] at hcons
  exact hcons

/-! ### Words of known shapes -/

/-- The texts of identifiers. -/
def isIdentifier : List Char → Bool
  | [] => false
  | c :: rest => isIdentStart c && rest.all isIdentPart

theorem ne_nil_of_isIdentifier {text : List Char} (h : isIdentifier text = true) : text ≠ [] := by
  rintro rfl
  simp [isIdentifier] at h

theorem isIdentStart_of_isIdentifier {text : List Char} (h : isIdentifier text = true) {c : Char}
    (hc : c ∈ text.head?) : isIdentStart c = true := by
  obtain ⟨rest, rfl⟩ := List.head?_eq_some_iff.1 hc
  rw [isIdentifier, Bool.and_eq_true] at h
  exact h.1

theorem isIdentPart_of_isIdentifier {text : List Char} (h : isIdentifier text = true) :
    ∀ c ∈ text, isIdentPart c = true := by
  cases text with
  | nil => simp
  | cons c rest =>
    rw [isIdentifier, Bool.and_eq_true, List.all_eq_true] at h
    intro d hd
    rcases List.mem_cons.1 hd with rfl | hd
    · rw [isIdentPart, h.1, Bool.true_or]
    · exact h.2 d hd

/-- An identifier stands on one line. -/
theorem feed_notMem_of_isIdentifier {text : List Char} (h : isIdentifier text = true) : '\n' ∉ text := by
  intro hmem
  have hpart := isIdentPart_of_isIdentifier h _ hmem
  revert hpart
  decide

theorem isIdentifier_append {a b : List Char} (ha : isIdentifier a = true)
    (hb : isIdentifier b = true) : isIdentifier (a ++ b) = true := by
  have hpart := isIdentPart_of_isIdentifier hb
  cases a with
  | nil => simpa using hb
  | cons c a =>
    rw [isIdentifier, Bool.and_eq_true] at ha
    rw [List.cons_append, isIdentifier, ha.1, Bool.true_and, List.all_append, ha.2, Bool.true_and,
      List.all_eq_true]
    exact hpart

/-- An identifier is a name in front of what cannot go on with it. -/
theorem lexeme_name {text : List Char} (h : isIdentifier text = true) {rest : List Char}
    (hrest : ∀ d ∈ rest.head?, isIdentPart d = false ∧ isQuote d = false) :
    lexeme (text ++ rest) = some (.name, text.length) := by
  have hpart := isIdentPart_of_isIdentifier h
  -- the cases of a lexeme that come before names are ruled out by the first character
  cases text with
  | nil => simp [isIdentifier] at h
  | cons c text =>
    have hstart : isIdentStart c = true := by
      rw [isIdentifier, Bool.and_eq_true] at h
      exact h.1
    have hother : c ≠ '$' ∧ c ≠ '.' := by
      constructor <;> rintro rfl <;> revert hstart <;> decide
    have hnumber : startsNumber (c :: (text ++ rest)) = false := by
      rw [startsNumber_cons, not_digit_of_identStart c hstart]
      simp [hother.2]
    have htake : (c :: text ++ rest).takeWhile isIdentPart = c :: text := by
      rw [List.takeWhile_append_of_pos hpart]
      cases rest with
      | nil => simp
      | cons d rest => simp [(hrest d rfl).1]
    have hquote : (rest.take 1).any isQuote = false := by
      cases rest with
      | nil => rfl
      | cons d rest => simp [(hrest d rfl).2]
    rw [List.cons_append, lexeme_cons, if_neg hother.1, if_neg (by simp [hnumber]),
      if_neg (by simp [not_quote_of_identStart c hstart]), if_pos hstart, ← List.cons_append,
      nameLexeme, htake]
    simp only [List.drop_left, hquote, Bool.false_and, Bool.false_eq_true, if_false]

/-- A row of digits is a number in front of what cannot go on with it. -/
theorem lexeme_digits {text : List Char} (hne : text ≠ []) (h : ∀ c ∈ text, c.isDigit = true)
    {rest : List Char} (hrest : ∀ d ∈ rest.head?, isNumberPart d = false ∧ isSign d = false) :
    lexeme (text ++ rest) = some (.number, text.length) := by
  have hpart : ∀ c ∈ text, isNumberPart c = true := fun c hc => by
    simp [isNumberPart, Char.isAlphanum, h c hc]
  have hlength : numberLength (text ++ rest) = text.length := by
    rw [numberLength, numberTail_word _ hpart fun d hd => (hrest d hd).2]
    cases rest with
    | nil => rfl
    | cons d rest => rw [numberTail_eq_zero (hrest d rfl).1, Nat.add_zero]
  cases text with
  | nil => exact absurd rfl hne
  | cons c text =>
    have hdigit : c.isDigit = true := h c List.mem_cons_self
    have hmarker : c ≠ '$' := by
      rintro rfl
      simp at hdigit
    rw [List.cons_append] at hlength ⊢
    rw [lexeme_cons, if_neg hmarker, if_pos (by simp [startsNumber_cons, hdigit]), hlength]

/-- What begins with a character of operators, and is no number, is an operator. -/
theorem lexeme_operator {c : Char} (hc : c ∈ operators1) {rest : List Char}
    (hnumber : startsNumber (c :: rest) = false) :
    lexeme (c :: rest) = some (.operator, operatorLength (c :: rest)) := by
  have hplain : ∀ d ∈ operators1, d ≠ '$' ∧ isQuote d = false ∧ isIdentStart d = false := by
    decide
  obtain ⟨hmarker, hquote, hident⟩ := hplain c hc
  rw [lexeme_cons, if_neg hmarker, if_neg (by simp [hnumber]), if_neg (by simp [hquote]),
    if_neg (by simp [hident]), operatorLexeme]
  split
  · next hzero =>
    have := operatorLength_pos hc rest
    omega
  · next n hn => rw [hn]

/-- The brackets, the comma and the semicolon begin no longer operator. -/
theorem lexeme_mark {c : Char} (hc : c ∈ "()[],;".toList) (rest : List Char) :
    lexeme (c :: rest) = some (.operator, 1) := by
  have hnone3 : ∀ d ∈ "()[],;".toList, ∀ op ∈ operators3, d ∉ op := by decide
  have hnone2 : ∀ d ∈ "()[],;".toList, ∀ op ∈ operators2, d ∉ op := by decide
  have hplain : ∀ d ∈ "()[],;".toList, d ∈ operators1 ∧ d ≠ '.' ∧ d.isDigit = false := by
    decide
  obtain ⟨hop, hpoint, hdigit⟩ := hplain c hc
  have hlength : operatorLength (c :: rest) = 1 := by
    rw [operatorLength_eq_one_iff]
    exact ⟨fun hmem => hnone3 c hc _ hmem (by simp), fun hmem => hnone2 c hc _ hmem.1 (by simp), hop⟩
  rw [lexeme_operator hop (by simp [startsNumber_cons, hdigit, hpoint]), hlength]

/-- Before a name, one character is an operator of its own. -/
theorem lexeme_before_name {c d : Char} (hc : c ∈ operators1) (hd : isIdentStart d = true)
    (rest : List Char) : lexeme (c :: d :: rest) = some (.operator, 1) := by
  have hdigit : ∀ e ∈ operators1, e.isDigit = false := by decide
  have hlength : operatorLength (c :: d :: rest) = 1 := by
    rw [operatorLength_eq_one_iff]
    exact ⟨not_operators3_of_identStart hd (by simp),
      fun hmem => not_operators2_of_identStart hd (by simp) hmem.1, hc⟩
  rw [lexeme_operator hc, hlength]
  simp [startsNumber_cons, not_digit_of_identStart d hd, hdigit c hc]

/-- One word without spaces before it. -/
theorem words_one {x text : List Char} {kind : Token.Kind} (hne : x ≠ [])
    (hlexeme : lexeme (x ++ text) = some (kind, x.length)) :
    Words (x ++ text) [(kind, String.ofList x)] text :=
  .cons 0 hne hlexeme (.nil text)

theorem words_mark {c : Char} (hc : c ∈ "()[],;".toList) (text : List Char) :
    Words (c :: text) [(.operator, String.ofList [c])] text := by
  have hlexeme := lexeme_mark hc text
  exact words_one (x := [c]) (by simp) hlexeme

theorem words_name {x text : List Char} (hx : isIdentifier x = true)
    (htext : ∀ d ∈ text.head?, isIdentPart d = false ∧ isQuote d = false) :
    Words (x ++ text) [(.name, String.ofList x)] text :=
  words_one (ne_nil_of_isIdentifier hx) (lexeme_name hx htext)

/-- The bracket depth behind a word. -/
def nestWord (depth : Nat) (word : Spelling) : Nat :=
  match word with
  | (.operator, text) => text.toList.head?.elim depth (nest depth)
  | _ => depth

/-- Only an operator nests. -/
theorem nestWord_of_ne {word : Spelling} (h : word.1 ≠ .operator) (depth : Nat) :
    nestWord depth word = depth := by
  unfold nestWord
  split
  · exact absurd rfl h
  · rfl

/-- Only an operator can be a bracket. -/
theorem nest_of_lexeme {c : Char} {text : List Char} {kind : Token.Kind} {n : Nat}
    (h : lexeme (c :: text) = some (kind, n)) (x : List Char) (depth : Nat) :
    nest depth c = nestWord depth (kind, String.ofList (c :: x)) := by
  by_cases hk : kind = .operator
  · simp [nestWord, hk]
  rw [nestWord_of_ne hk]
  -- no other lexeme begins with a bracket
  apply nest_of_not_bracket
  rcases lexeme_cases h with ⟨rfl, -⟩ | ⟨hc, -⟩ | ⟨hc, -⟩ | ⟨hc, -⟩ | ⟨-, -, -, hop, -⟩
  · decide
  · exact not_bracket_of_startsNumber hc
  · exact not_bracket_of (p := isQuote) (by decide) hc
  · exact not_bracket_of (p := isIdentStart) (by decide) hc
  · exact absurd hop hk

theorem literalLexeme_kind {text : List Char} {letters n : Nat} {kind : Token.Kind}
    (h : literalLexeme text letters = some (kind, n)) : kind = .string := by
  simp only [literalLexeme] at h
  split at h
  · simp only [Option.some.injEq, Prod.mk.injEq] at h
    exact h.1.symm
  · simp at h

theorem nameLexeme_kind {text : List Char} {n : Nat} {kind : Token.Kind}
    (h : nameLexeme text = some (kind, n)) : kind = .name ∨ kind = .string := by
  simp only [nameLexeme] at h
  split at h
  · exact .inr (literalLexeme_kind h)
  · simp only [Option.some.injEq, Prod.mk.injEq] at h
    exact .inl h.1.symm

/-- A lexeme is a word. -/
theorem isWord_of_lexeme {text : List Char} {n : Nat} {kind : Token.Kind}
    (h : lexeme text = some (kind, n)) : kind.isWord = true := by
  cases text with
  | nil => simp at h
  | cons c text =>
    rcases lexeme_cases h with ⟨-, rfl, -⟩ | ⟨-, rfl, -⟩ | ⟨-, hliteral⟩ | ⟨-, -, -, hname⟩ |
      ⟨-, -, -, rfl, -⟩
    · rfl
    · rfl
    · rw [literalLexeme_kind hliteral]
      rfl
    · rcases nameLexeme_kind hname with rfl | rfl <;> rfl
    · rfl

/-- An operator is as long as the operator at the beginning of the text. -/
theorem operatorLength_of_lexeme {text : List Char} {n : Nat}
    (h : lexeme text = some (.operator, n)) : operatorLength text = n := by
  cases text with
  | nil => simp at h
  | cons c text =>
    rcases lexeme_cases h with ⟨-, hk, -⟩ | ⟨-, hk, -⟩ | ⟨-, hliteral⟩ | ⟨-, -, -, hname⟩ |
      ⟨-, -, -, -, hn⟩
    · cases hk
    · cases hk
    · cases literalLexeme_kind hliteral
    · rcases nameLexeme_kind hname with hk | hk <;> cases hk
    · exact hn.symm

/-- A name is an identifier. -/
theorem isIdentifier_of_lexeme {x text : List Char}
    (h : lexeme (x ++ text) = some (.name, x.length)) : isIdentifier x = true := by
  have hpos := (lexeme_length h).1
  cases x with
  | nil => simp at hpos
  | cons c x =>
    rw [List.cons_append] at h
    rcases lexeme_cases h with ⟨-, hk, -⟩ | ⟨-, hk, -⟩ | ⟨-, hliteral⟩ | ⟨hstart, -, -, hname⟩ |
      ⟨-, -, -, hk, -⟩
    · simp at hk
    · simp at hk
    · simpa using literalLexeme_kind hliteral
    · unfold nameLexeme at hname
      simp only at hname
      split at hname
      · simpa using literalLexeme_kind hname
      · simp only [Option.some.injEq, Prod.mk.injEq, true_and] at hname
        have hword := List.prefix_iff_eq_take.1
          (List.takeWhile_prefix (l := c :: (x ++ text)) isIdentPart)
        rw [hname, ← List.cons_append, List.take_left] at hword
        rw [isIdentifier, hstart, Bool.true_and, List.all_eq_true]
        intro d hd
        have hmem : d ∈ (c :: x ++ text).takeWhile isIdentPart := by
          rw [hword]
          exact List.mem_cons_of_mem c hd
        exact List.all_eq_true.1 List.all_takeWhile d hmem
    · simp at hk

/-- No lexeme begins with a blank. -/
theorem blankLength_spaces {c : Char} (h : startsLexeme c = true) (spaces : Nat)
    (rest : List Char) : blankLength (List.replicate spaces ' ' ++ c :: rest) = spaces := by
  induction spaces with
  | succ n ih =>
    rw [List.replicate_succ, List.cons_append, blankLength_cons (by simp) (by simp) (by simp), ih]
    rfl
  | zero =>
    have hseparator : ∀ d, startsLexeme d = false → c ≠ d := by
      rintro d hd rfl
      simp [hd] at h
    have hspace := hseparator ' ' (by decide)
    have htab := hseparator '\t' (by decide)
    have hfeed := hseparator '\x0c' (by decide)
    have hreturn := hseparator '\r' (by decide)
    have hjoin := hseparator '\\' (by decide)
    rw [List.replicate_zero, List.nil_append, blankLength_cons (by simp [hjoin]) (by simp [hjoin])
        (by simp [hreturn]),
      if_neg (by simp [isGap, hspace, htab, hfeed, hreturn])]

/-- Spaces before a lexeme are blanks, and nothing else is. -/
theorem drop_blankLength_spaces {text : List Char} {kind : Token.Kind} {n spaces : Nat}
    (h : lexeme text = some (kind, n)) :
    (List.replicate spaces ' ' ++ text).drop (blankLength (List.replicate spaces ' ' ++ text)) =
      text := by
  cases text with
  | nil => simp at h
  | cons c text =>
    rw [blankLength_spaces (startsLexeme_of_lexeme h)]
    exact List.drop_left' List.length_replicate

end Scan

namespace Lexer

open Scan

/-- The reader within a line that has a token, at a bracket depth. -/
def within (lx : Lexer) (depth : Nat) : Lexer :=
  { lx with depth, atLineStart := false, lineHasContent := true }

theorem atToken_within {lx : Lexer} (h : lx.pendingDedents = 0) (depth : Nat) (b A : List Char)
    (p : Position) : ((lx.within depth).elsewhere b A p).AtToken :=
  ⟨h, fun hstart => by simp [within, elsewhere] at hstart⟩

/-- At the beginning of a text that is not indented, a reader is at a token. -/
theorem atToken_ofChars {c : Char} (hc : isGap c = false) (rest : List Char) :
    (ofChars (c :: rest)).AtToken := by
  refine ⟨rfl, fun _ _ => (indentation_eq_none_iff _).2 (.inr (.inr ?_))⟩
  show indentWidth (c :: rest) = 0
  simp [indentWidth, hc]

/-- A reader at a token reads the lexeme behind its blanks. -/
theorem spells_lexeme {lx : Lexer} {kind : Token.Kind} {x text : List Char} (hat : lx.AtToken)
    (hne : x ≠ []) (hlexeme : lexeme (x ++ text) = some (kind, x.length))
    (hpast : lx.pastBlanks.ahead = x ++ text) :
    ∃ b p, lx.Spells [(kind, String.ofList x)]
      ((lx.within (nestWord lx.depth (kind, String.ofList x))).elsewhere b text p) := by
  obtain ⟨c, y, rfl⟩ := List.exists_cons_of_ne_nil hne
  have hpast' : lx.onLine.pastBlanks.ahead = c :: y ++ text := hpast
  have hnext := (next_of_atToken hat).trans (lineToken_of_lexeme hpast' hlexeme)
  unfold lexemeStep at hnext
  rw [nest_of_lexeme hlexeme y] at hnext
  -- only where the reader stands is new, apart from what it knows about the line
  generalize hmid : lx.onLine.pastBlanks.advance (c :: y).length = mid at hnext
  have hplace : mid = lx.onLine.elsewhere mid.behind text mid.here := by
    have hdrop : lx.onLine.pastBlanks.ahead.drop (c :: y).length = text := by
      rw [hpast', List.drop_left]
    rw [← hmid, ← hdrop]
    rfl
  rw [hplace] at hnext
  have hspelling : (lx.onLine.pastBlanks.token kind (c :: y).length).spelling =
      (kind, String.ofList (c :: y)) := by
    show (kind, String.ofList (lx.onLine.pastBlanks.ahead.take (c :: y).length)) = _
    rw [hpast', List.take_left]
  have hkind : kind ≠ .endMarker := by
    rintro rfl
    exact absurd (isWord_of_lexeme hlexeme) (by decide)
  exact ⟨_, _, .single hnext hspelling hkind⟩

/-- **A reader at a token reads the words of its line,** and stands behind them at the depth that
their brackets come to. -/
theorem spells_words {text rest : List Char} {words : List Spelling} (h : Words text words rest)
    (hne : words ≠ []) {lx : Lexer} (hat : lx.AtToken)
    (hpast : lx.pastBlanks.ahead = text.drop (Scan.blankLength text)) :
    ∃ b p, lx.Spells words ((lx.within (words.foldl nestWord lx.depth)).elsewhere b rest p) := by
  induction h generalizing lx with
  | nil => exact absurd rfl hne
  | @cons spaces x text kind words rest hx hlexeme htail ih =>
    rw [drop_blankLength_spaces hlexeme] at hpast
    obtain ⟨b, p, hword⟩ := spells_lexeme hat hx hlexeme hpast
    cases words with
    | nil =>
      cases htail
      exact ⟨b, p, hword⟩
    | cons word words =>
      obtain ⟨b', p', hwords⟩ := ih (by simp)
        (atToken_within hat.1 (nestWord lx.depth (kind, String.ofList x)) b text p) rfl
      exact ⟨b', p', hword.trans hwords⟩

/-- A token that is neither an indent nor a dedent is one of the line. -/
theorem lineToken_of_next {lx rest : Lexer} {t : Token} (h : lx.next = (.ok t, rest))
    (hk : t.kind ≠ .indent ∧ t.kind ≠ .dedent) :
    lx.AtToken ∧ lx.onLine.lineToken = (.ok t, rest) := by
  rcases lx.next_cases with hpending | ⟨hpending, hstart, hdepth, step, hstep⟩ | hat
  · rw [next_of_pending hpending] at h
    cases h
    exact absurd rfl hk.2
  · rw [next_of_indentation hpending hstart hdepth hstep] at h
    subst h
    rcases indentation_cases hstep with ⟨-, rfl, -⟩ | ⟨-, -, rfl, -⟩
    · exact absurd rfl hk.1
    · exact absurd rfl hk.2
  · exact ⟨hat, (next_of_atToken hat).symm.trans h⟩

theorem kind_endOfSource {lx rest : Lexer} {t : Token} (h : lx.endOfSource = (.ok t, rest)) :
    (t.kind = .newline ∨ t.kind = .dedent ∨ t.kind = .endMarker) ∧ rest.ahead = lx.ahead := by
  rcases endOfSource_cases h with ⟨-, rfl, rfl⟩ | ⟨-, -, rfl, rfl⟩ | ⟨-, -, rfl, rfl⟩
  · exact ⟨.inl rfl, rfl⟩
  · exact ⟨.inr (.inl rfl), rfl⟩
  · exact ⟨.inr (.inr rfl), rfl⟩

/-- A step that reads a lexeme gives a word. -/
theorem isWord_of_lexemeStep {lx rest : Lexer} {t : Token} {text : List Char} {c : Char}
    {kind : Token.Kind} {n : Nat} (hlexeme : lexeme text = some (kind, n))
    (h : lx.lexemeStep c kind n = (.ok t, rest)) : t.kind.isWord = true := by
  cases h
  exact isWord_of_lexeme hlexeme

/-- **The cases of a step of the line,** by the kind of its token. -/
theorem lineToken_kinds {lx rest : Lexer} {t : Token} (h : lx.lineToken = (.ok t, rest)) :
    ((t.kind = .newline ∨ t.kind = .dedent ∨ t.kind = .endMarker) ∧ lx.pastBlanks.ahead = [] ∧
      lx.pastBlanks.endOfSource = (.ok t, rest)) ∨
    (t.kind = .comment ∧ (∃ text, lx.pastBlanks.ahead = '#' :: text) ∧
      lx.pastBlanks.comment = (.ok t, rest)) ∨
    ((t.kind = .newline ∨ t.kind = .lineBreak) ∧ 0 < Scan.breakLength lx.pastBlanks.ahead ∧
      lx.pastBlanks.lineBreak = (.ok t, rest)) ∨
    (t.kind.isWord = true ∧ ∃ c text kind n, lx.pastBlanks.ahead = c :: text ∧
      lexeme (c :: text) = some (kind, n) ∧ lx.pastBlanks.lexemeStep c kind n = (.ok t, rest)) := by
  rcases lineToken_cases h with ⟨hnil, hend⟩ | ⟨text, hcons, hcomment⟩ | ⟨c, text, hcons, hc, hbreak⟩ |
    ⟨c, text, kind, n, hcons, hlexeme, hstep⟩
  · exact .inl ⟨(kind_endOfSource hend).1, hnil, hend⟩
  · refine .inr (.inl ⟨?_, ⟨text, hcons⟩, hcomment⟩)
    cases hcomment
    rfl
  · refine .inr (.inr (.inl ⟨?_, breakLength_drop_blankLength hcons hc, hbreak⟩))
    cases hbreak
    dsimp only [token]
    split
    · exact .inl rfl
    · exact .inr rfl
  · exact .inr (.inr (.inr ⟨isWord_of_lexemeStep hlexeme hstep, c, text, kind, n, hcons, hlexeme, hstep⟩))

/-- No other step gives a word. -/
theorem lexemeStep_of_isWord {lx rest : Lexer} {t : Token} (h : lx.lineToken = (.ok t, rest))
    (hk : t.kind.isWord = true) :
    ∃ c text kind n, lx.pastBlanks.ahead = c :: text ∧ lexeme (c :: text) = some (kind, n) ∧
      lx.pastBlanks.lexemeStep c kind n = (.ok t, rest) := by
  rcases lineToken_kinds h with ⟨hkind | hkind | hkind, -⟩ | ⟨hkind, -⟩ | ⟨hkind | hkind, -⟩ |
    ⟨-, hlexeme⟩
  -- the kinds of all other steps are no words
  case inr.inr.inr => exact hlexeme
  all_goals simp [Token.Kind.isWord, hkind] at hk

/-- **A token that is a word is the lexeme behind the blanks,** and the reader is within its line
then, at the depth that the word comes to. -/
theorem next_of_word {lx rest : Lexer} {t : Token} (h : lx.next = (.ok t, rest))
    (hk : t.kind.isWord = true) :
    lx.AtToken ∧ lx.Takes (lx.ahead.take (Scan.blankLength lx.ahead)) t rest ∧
      lexeme (t.text.toList ++ rest.ahead) = some (t.kind, t.text.toList.length) ∧
      ∃ b A p, rest = (lx.within (nestWord lx.depth t.spelling)).elsewhere b A p := by
  obtain ⟨hat, h⟩ := lineToken_of_next h (by
    constructor <;> intro hkind <;> simp [Token.Kind.isWord, hkind] at hk)
  have htakes := takes_lineToken h
  obtain ⟨c, text, kind, n, hcons, hlexeme, hstep⟩ := lexemeStep_of_isWord h hk
  cases hstep
  obtain ⟨hpos, hle⟩ := lexeme_length hlexeme
  obtain ⟨m, rfl⟩ : ∃ m, n = m + 1 := ⟨n - 1, by omega⟩
  have htext : (lx.onLine.pastBlanks.token kind (m + 1)).text =
      String.ofList (c :: text.take m) := by
    simp [token, hcons]
  have hsplit : c :: text.take m ++ (lx.onLine.pastBlanks.advance (m + 1)).ahead = c :: text := by
    rw [advance_ahead, hcons]
    exact List.take_append_drop (m + 1) (c :: text)
  have hlength : (c :: text.take m).length = m + 1 := by
    simp only [List.length_cons, List.length_take] at hle ⊢
    omega
  refine ⟨hat, htakes.congr rfl rfl, ?_, ?_⟩
  · rw [htext, String.toList_ofList, hlength]
    exact hsplit ▸ hlexeme
  · rw [Token.spelling, htext, nest_of_lexeme hlexeme (text.take m)]
    exact ⟨_, _, _, rfl⟩

/-- A comment leaves a reader what it is. -/
theorem next_of_comment {lx rest : Lexer} {t : Token} (h : lx.next = (.ok t, rest))
    (hk : t.kind = .comment) : ∃ b A p, rest = lx.onLine.elsewhere b A p := by
  obtain ⟨-, hline⟩ := lineToken_of_next h (by simp [hk])
  rcases lineToken_kinds hline with ⟨hkind, -⟩ | ⟨-, -, hcomment⟩ | ⟨hkind, -⟩ | ⟨hword, -⟩
  · simp [hk] at hkind
  · cases hcomment
    exact ⟨_, _, _, rfl⟩
  · simp [hk] at hkind
  · simp [Token.Kind.isWord, hk] at hword

/-- A line break ends in its line feed. -/
theorem break_ends {text : List Char} (h : 0 < breakLength text) :
    ∃ front, text.take (breakLength text) = front ++ ['\n'] := by
  unfold breakLength at h ⊢
  split
  · exact ⟨[], rfl⟩
  · exact ⟨['\r'], rfl⟩
  · simp at h

theorem mem_break {text : List Char} (h : 0 < Scan.breakLength text) :
    '\n' ∈ text.take (Scan.breakLength text) := by
  obtain ⟨front, hfront⟩ := break_ends h
  rw [hfront]
  exact List.mem_append_right front (List.mem_singleton.2 rfl)

/-- The end of a logical line is a line break outside brackets, or the end of the source. -/
theorem next_of_newline {lx rest : Lexer} {t : Token} (h : lx.next = (.ok t, rest))
    (hk : t.kind = .newline) :
    rest.ahead = [] ∨ (lx.depth = 0 ∧ '\n' ∈ t.text.toList ∧
      ∃ b A p, rest = { lx with atLineStart := true, lineHasContent := false }.elsewhere b A p) := by
  obtain ⟨-, hline⟩ := lineToken_of_next h (by simp [hk])
  rcases lineToken_kinds hline with ⟨-, hnil, hend⟩ | ⟨hkind, -⟩ | ⟨-, hpos, hbreak⟩ | ⟨hword, -⟩
  · exact .inl ((kind_endOfSource hend).2.trans hnil)
  · simp [hk] at hkind
  · have hfeed := mem_break hpos
    cases hbreak
    dsimp only [token] at hk
    split at hk
    · next hlogical =>
      rw [Bool.and_eq_true, beq_iff_eq] at hlogical
      refine .inr ⟨hlogical.1, by simpa [token] using hfeed, ?_⟩
      rw [hlogical.1, hlogical.2]
      exact ⟨_, _, _, rfl⟩
    · simp at hk
  · simp [Token.Kind.isWord, hk] at hword

/-! ### Line breaks -/

/-- Gaps before what is no blank are blanks, and nothing else is. -/
theorem blankLength_gap {gap rest : List Char} (hgap : ∀ c ∈ gap, isGap c = true)
    (hrest : Scan.blankLength rest = 0) : Scan.blankLength (gap ++ rest) = gap.length := by
  induction gap with
  | nil => exact hrest
  | cons c gap ih =>
    rw [List.forall_mem_cons] at hgap
    have hplain : c ≠ '\\' ∧ c ≠ '\r' := by
      constructor <;> rintro rfl <;> exact absurd hgap.1 (by decide)
    rw [List.cons_append, blankLength_cons (by simp [hplain]) (by simp [hplain]) (by simp [hplain]),
      hgap.1, Bool.true_or, if_pos rfl, ih hgap.2, List.length_cons]

/-- Behind the gap at the beginning of a line that ends there, a line is blank. -/
theorem isBlankLine_gap {gap rest : List Char} (hgap : ∀ c ∈ gap, isGap c = true)
    (hrest : ∀ c ∈ rest.head?, c = '\n') : isBlankLine (gap ++ rest) = true := by
  have hdrop : (gap ++ rest).dropWhile isGap = rest := by
    rw [List.dropWhile_append_of_pos hgap]
    cases rest with
    | nil => rfl
    | cons c rest =>
      obtain rfl := hrest c rfl
      rfl
  unfold isBlankLine afterIndent
  rw [hdrop]
  cases rest with
  | nil => rfl
  | cons c rest =>
    obtain rfl := hrest c rfl
    rfl

/-- What comes of a line feed: the reader is at the beginning of a line, and a logical line is over
if no bracket is open. -/
theorem spells_break {lx : Lexer} {gap rest : List Char} (hgap : ∀ c ∈ gap, isGap c = true)
    (hpending : lx.pendingDedents = 0) (ha : lx.ahead = gap ++ '\n' :: rest) :
    ∃ b p, lx.Spells
      [(if lx.depth == 0 && lx.lineHasContent then .newline else .lineBreak, "\n")]
      ({ lx with
        atLineStart := true
        lineHasContent := lx.lineHasContent && !(lx.depth == 0 && lx.lineHasContent)
        }.elsewhere b rest p) := by
  have hat : lx.AtToken := by
    refine ⟨hpending, fun _ _ => (indentation_eq_none_iff _).2 (.inl ?_)⟩
    show isBlankLine lx.ahead = true
    rw [ha]
    exact isBlankLine_gap hgap (by simp)
  have hpast : lx.onLine.pastBlanks.ahead = '\n' :: rest := by
    show lx.ahead.drop (Scan.blankLength lx.ahead) = _
    rw [ha, blankLength_gap hgap rfl, List.drop_left]
  have hnext := (next_of_atToken hat).trans (lineToken_lineBreak hpast rfl)
  have hlength : Scan.breakLength lx.onLine.pastBlanks.ahead = 1 := by rw [hpast]; rfl
  unfold lineBreak at hnext
  simp only [hlength] at hnext
  generalize hmid : lx.onLine.pastBlanks.advance 1 = mid at hnext
  have hplace : mid = lx.onLine.elsewhere mid.behind rest mid.here := by
    have hdrop : lx.onLine.pastBlanks.ahead.drop 1 = rest := by rw [hpast]; rfl
    rw [← hmid, ← hdrop]
    rfl
  rw [hplace] at hnext
  refine ⟨_, _, .single hnext ?_ ?_⟩
  · show (_, String.ofList (lx.onLine.pastBlanks.ahead.take 1)) = _
    rw [hpast]
    rfl
  · dsimp only
    split <;> simp

/-- Inside brackets, line feeds leave a reader what it is. -/
theorem spells_breaks_nested (n : Nat) {lx : Lexer} {rest : List Char}
    (hpending : lx.pendingDedents = 0) (hdepth : 0 < lx.depth)
    (ha : lx.ahead = List.replicate n '\n' ++ rest) :
    ∃ start b p, lx.Spells (List.replicate n (.lineBreak, "\n"))
      ({ lx with atLineStart := start }.elsewhere b rest p) := by
  induction n generalizing lx with
  | zero =>
    rw [List.replicate_zero, List.nil_append] at ha
    subst ha
    exact ⟨lx.atLineStart, lx.behind, lx.here, .nil lx⟩
  | succ n ih =>
    obtain ⟨b, p, hbreak⟩ := spells_break (List.forall_mem_nil _) hpending ha
    have hinner : (lx.depth == 0) = false := by simp; omega
    rw [hinner, Bool.false_and, Bool.not_false, Bool.and_true] at hbreak
    obtain ⟨start, b', p', hbreaks⟩ :=
      @ih ({ lx with atLineStart := true }.elsewhere b (List.replicate n '\n' ++ rest) p)
        hpending hdepth rfl
    exact ⟨start, b', p', hbreak.trans hbreaks⟩

/-- On a line without a token, line feeds leave a reader what it is. -/
theorem spells_breaks_blank (n : Nat) {lx : Lexer} {rest : List Char}
    (hpending : lx.pendingDedents = 0) (hstart : lx.atLineStart = true)
    (hcontent : lx.lineHasContent = false) (ha : lx.ahead = List.replicate n '\n' ++ rest) :
    ∃ b p, lx.Spells (List.replicate n (.lineBreak, "\n")) (lx.elsewhere b rest p) := by
  induction n generalizing lx with
  | zero =>
    rw [List.replicate_zero, List.nil_append] at ha
    subst ha
    exact ⟨lx.behind, lx.here, .nil lx⟩
  | succ n ih =>
    obtain ⟨b, p, hbreak⟩ := spells_break (List.forall_mem_nil _) hpending ha
    -- a line without a token ends as it began
    have hsame : { lx with atLineStart := true, lineHasContent := false } = lx := by
      rw [← hstart, ← hcontent]
    simp only [hcontent, Bool.and_false, Bool.false_and, Bool.false_eq_true, if_false, hsame]
      at hbreak
    obtain ⟨b', p', hbreaks⟩ :=
      @ih (lx.elsewhere b (List.replicate n '\n' ++ rest) p) hpending hstart hcontent rfl
    exact ⟨b', p', hbreak.trans hbreaks⟩

/-! ### The end of a text -/

/-- At the end of its text, a reader has nothing left but what the end amounts to. -/
theorem next_of_gap {lx : Lexer} (hpending : lx.pendingDedents = 0)
    (ha : ∀ c ∈ lx.ahead, isGap c = true) :
    lx.onLine.pastBlanks.ahead = [] ∧ lx.next = lx.onLine.pastBlanks.endOfSource := by
  have hat : lx.AtToken := by
    refine ⟨hpending, fun _ _ => (indentation_eq_none_iff _).2 (.inl ?_)⟩
    have hblank := isBlankLine_gap ha (show ∀ c ∈ ([] : List Char).head?, c = '\n' by simp)
    rwa [List.append_nil] at hblank
  have hpast : lx.onLine.pastBlanks.ahead = [] := by
    have hlength := blankLength_gap ha (show Scan.blankLength [] = 0 from rfl)
    rw [List.append_nil] at hlength
    show lx.ahead.drop (Scan.blankLength lx.ahead) = []
    rw [hlength, List.drop_length]
  exact ⟨hpast, (next_of_atToken hat).trans (lineToken_nil hpast)⟩

theorem spelling_token_zero (lx : Lexer) (kind : Token.Kind) : (lx.token kind 0).spelling = (kind, "") :=
  rfl

/-- At the end of its text and behind the end of a line, a reader closes all indentation. -/
theorem tokenizes_dedents (n : Nat) {lx : Lexer} (hpending : lx.pendingDedents = 0)
    (ha : ∀ c ∈ lx.ahead, isGap c = true) (hcontent : lx.lineHasContent = false)
    (hindents : lx.indents.length - 1 = n) :
    lx.Tokenizes (List.replicate n (.dedent, "") ++ [(.endMarker, "")]) := by
  induction n generalizing lx with
  | zero =>
    obtain ⟨hnil, hnext⟩ := next_of_gap hpending ha
    have hlast : ¬ lx.onLine.pastBlanks.indents.length > 1 := by
      show ¬ lx.indents.length > 1
      omega
    unfold endOfSource at hnext
    rw [if_neg (show ¬ lx.onLine.pastBlanks.lineHasContent = true from Bool.not_eq_true _ ▸ hcontent),
      if_neg hlast] at hnext
    exact ⟨_, run_of_end hnext rfl, rfl⟩
  | succ n ih =>
    obtain ⟨hnil, hnext⟩ := next_of_gap hpending ha
    have hmore : lx.onLine.pastBlanks.indents.length > 1 := by
      show lx.indents.length > 1
      omega
    unfold endOfSource at hnext
    rw [if_neg (show ¬ lx.onLine.pastBlanks.lineHasContent = true from Bool.not_eq_true _ ▸ hcontent),
      if_pos hmore] at hnext
    refine (Spells.single hnext (spelling_token_zero _ .dedent) (by simp)).tokenizes (ih ?_ ?_ ?_ ?_)
    · exact hpending
    · show ∀ c ∈ lx.onLine.pastBlanks.ahead, isGap c = true
      rw [hnil]
      exact List.forall_mem_nil _
    · exact hcontent
    · show (lx.indents.drop 1).length - 1 = n
      rw [List.length_drop]
      omega

/-- At the end of its text, a reader ends the line that has begun, and all indentation. -/
theorem tokenizes_end {lx : Lexer} (hpending : lx.pendingDedents = 0)
    (ha : ∀ c ∈ lx.ahead, isGap c = true) :
    lx.Tokenizes ((if lx.lineHasContent then [(.newline, "")] else []) ++
      (List.replicate (lx.indents.length - 1) (.dedent, "") ++ [(.endMarker, "")])) := by
  by_cases hcontent : lx.lineHasContent = true
  · obtain ⟨hnil, hnext⟩ := next_of_gap hpending ha
    unfold endOfSource at hnext
    rw [if_pos (show lx.onLine.pastBlanks.lineHasContent = true from hcontent)] at hnext
    rw [if_pos hcontent]
    refine (Spells.single hnext (spelling_token_zero _ _) (by simp)).tokenizes
      (tokenizes_dedents _ hpending ?_ rfl rfl)
    show ∀ c ∈ lx.onLine.pastBlanks.ahead, isGap c = true
    rw [hnil]
    exact List.forall_mem_nil _
  · rw [if_neg hcontent]
    exact tokenizes_dedents _ hpending ha (by simpa using hcontent) rfl

/-- All tokens of a source are a run without an error. -/
theorem run_of_tokenize {source : String} {tokens : List Token} (h : tokenize source = .ok tokens) :
    (ofSource source).run = (tokens, none) := by
  unfold tokenize at h
  split at h
  · next hrun =>
    cases h
    exact hrun
  · cases h

/-- Every token of a run is the next one of some reader. -/
theorem exists_next_of_mem_run {lx : Lexer} {t : Token} (ht : t ∈ lx.run.1) :
    ∃ lx' rest : Lexer, lx'.next = (.ok t, rest) := by
  fun_induction run lx with
  | case1 => simp at ht
  | case2 lx first rest hnext hk =>
    rw [List.mem_singleton] at ht
    subst ht
    exact ⟨_, _, hnext⟩
  | case3 lx first rest hnext hk later ih =>
    rcases List.mem_cons.1 ht with rfl | ht
    · exact ⟨_, _, hnext⟩
    · exact ih ht

/-- A token of a run that holds no line feed stands on one line. -/
theorem oneLine_of_mem_run {lx : Lexer} {t : Token} (ht : t ∈ lx.run.1)
    (hfeed : '\n' ∉ t.text.toList) : t.stop.line = t.start.line := by
  obtain ⟨lx', rest, hnext⟩ := exists_next_of_mem_run ht
  obtain ⟨gap, htakes⟩ := takes_next hnext
  exact htakes.oneLine hfeed

/-- A name among the tokens of a run is an identifier. -/
theorem isIdentifier_of_mem_run {lx : Lexer} {t : Token} (ht : t ∈ lx.run.1) (hk : t.kind = .name) :
    Scan.isIdentifier t.text.toList = true := by
  obtain ⟨lx', rest, hnext⟩ := exists_next_of_mem_run ht
  obtain ⟨-, -, hlexeme, -⟩ := next_of_word hnext (by rw [hk]; rfl)
  rw [hk] at hlexeme
  exact Scan.isIdentifier_of_lexeme hlexeme

end Lexer

end Quasiquote
