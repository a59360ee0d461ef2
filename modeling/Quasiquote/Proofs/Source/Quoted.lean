import Mathlib.Data.List.TakeDrop
import Quasiquote.Proofs.Source.Boundary
import Quasiquote.Source.Literal
import Quasiquote.Value.Text

/-!
# Quoted texts

A text that is written as a literal is read as that literal, on one line, and denotes the text. There are
two ways of writing texts: that of sources, always in double quotes and with control characters escaped,
and that of host values, which prefers single quotes and leaves control characters alone.

## Main Definitions

* `Literal.Stands` — what may stand between quotes for a character
* `Literal.Writing` — a way of writing texts between quotes, character by character

## Main Statements

* `Literal.Writing.cook_body` — the body of a quoted text denotes the text, whatever follows it
* `Literal.Writing.lexeme` — a quoted text is read as one literal
* `Literal.unquote_quote`, `Literal.unquote_quoteText` — a quoted text denotes the text

## Design Notes

A character stands in a literal as itself, as a backslash and a letter, or as a backslash and two
hexadecimal digits. `Stands` says so once; each fact about quoted texts is a fact about these three
shapes in front of an arbitrary rest.
-/

namespace Quasiquote.Literal

open Scan

variable {quote : Char} {spell : Char → List Char}

/-! ### Shapes -/

/-- Whether a character stands for itself between quotes. -/
def isPlain (quote c : Char) : Bool := !(c == '\\' || c == quote || endsLine c)

/-- The letters of the escapes that stand for one character each. -/
def escapeLetters : List Char := ['\\', '"', '\x27', 'n', 'r', 't']

/-- **What may stand between quotes for a character.** -/
inductive Stands (quote : Char) : List Char → Char → Prop
  | plain {c : Char} : isPlain quote c = true → Stands quote [c] c
  | letter {e c : Char} : e ∈ escapeLetters → simpleEscape? e = some c → Stands quote ['\\', e] c
  | digits {c : Char} : c.toNat < 128 → Stands quote ('\\' :: 'x' :: hexByte c.toNat) c

/-- **A way of writing texts between quotes,** character by character. -/
structure Writing (quote : Char) (spell : Char → List Char) : Prop where
  isQuote : quote ∈ ['"', '\x27']
  stands : ∀ c, Stands quote (spell c) c

/-- A text between quotes. -/
def between (quote : Char) (spell : Char → List Char) (text : List Char) : List Char :=
  quote :: (text.flatMap spell ++ [quote])

theorem isPlain_eq_true {c : Char} (h : isPlain quote c = true) :
    c ≠ '\\' ∧ c ≠ quote ∧ endsLine c = false := by
  simp only [isPlain, Bool.not_eq_true', Bool.or_eq_false_iff, beq_eq_false_iff_ne, ne_eq] at h
  exact ⟨h.1.1, h.1.2, h.2⟩

theorem isPlain_of_ne {c : Char} (hslash : c ≠ '\\') (hquote : c ≠ quote) (hfeed : c ≠ '\n')
    (hreturn : c ≠ '\r') : isPlain quote c = true := by
  simp [isPlain, endsLine, hslash, hquote, hfeed, hreturn]

theorem escapeLetters_plain :
    ∀ e ∈ escapeLetters, e ≠ '\n' ∧ e ≠ '\r' ∧ endsLine e = false := by decide

theorem hexByte_plain :
    ∀ quote ∈ ['"', '\x27'], ∀ n < 128, ∀ d ∈ hexByte n, isPlain quote d = true := by decide

theorem naturalFrom?_hexByte : ∀ n < 128, Decimal.naturalFrom? 16 0 (hexByte n) = some n := by
  decide

/-- The way of sources. -/
theorem writing_quoteChar : Writing '"' quoteChar where
  isQuote := by decide
  stands c := by
    unfold quoteChar
    split
    · next hc => exact .letter (by decide) (by rw [hc]; decide)
    split
    · next hc => exact .letter (by decide) (by rw [hc]; decide)
    split
    · next hc => exact .letter (by decide) (by rw [hc]; decide)
    split
    · next hc => exact .letter (by decide) (by rw [hc]; decide)
    split
    · next hc => exact .letter (by decide) (by rw [hc]; decide)
    split
    · next hc =>
      -- control characters are single bytes, so that two digits suffice
      refine .digits ?_
      simp only [isControl, Bool.or_eq_true, decide_eq_true_eq, beq_iff_eq] at hc
      omega
    · next hslash hquote hfeed hreturn _ _ => exact .plain (isPlain_of_ne hslash hquote hfeed hreturn)

theorem quoteFor_mem (text : List Char) : quoteFor text ∈ ['"', '\x27'] := by
  unfold quoteFor
  split <;> decide

/-- The way of host values. -/
theorem writing_quoteTextChar {quote : Char} (hquote : quote ∈ ['"', '\x27']) :
    Writing quote (quoteTextChar quote) where
  isQuote := hquote
  stands c := by
    have hescape : ∀ quote ∈ ['"', '\x27'], quote ∈ escapeLetters ∧ simpleEscape? quote = some quote := by
      decide
    unfold quoteTextChar
    split
    · next hc => exact .letter (by decide) (by rw [hc]; decide)
    split
    · next hc => exact .letter (by decide) (by rw [hc]; decide)
    split
    · next hc => exact .letter (by decide) (by rw [hc]; decide)
    split
    · next hc => exact .letter (by decide) (by rw [hc]; decide)
    split
    · next hc =>
      subst hc
      exact .letter (hescape c hquote).1 (hescape c hquote).2
    · next hslash hfeed hreturn _ hother => exact .plain (isPlain_of_ne hslash hother hfeed hreturn)

/-! ### What a quoted text denotes -/

theorem cook_escape {e d : Char} (h : simpleEscape? e = some d) (rest : List Char)
    (hfeed : e ≠ '\n') (hreturn : e ≠ '\r') :
    cook ('\\' :: e :: rest) = (cook rest).map (d :: ·) := by
  rw [cook]
  · rw [h]
    cases cook rest <;> rfl
  · exact hfeed
  · exact fun _ he _ => hreturn he
  · exact hreturn

theorem hexEscape_hexByte (c : Char) (hc : c.toNat < 128) (rest : List Char) :
    hexEscape 2 (hexByte c.toNat ++ rest) = .ok c := by
  have htake : (hexByte c.toNat ++ rest).take 2 = hexByte c.toNat := rfl
  have hlength : (hexByte c.toNat).length = 2 := rfl
  have hcharacter : character c.toNat = .ok c := by
    have hvalid : c.toNat.isValidChar := c.valid
    rw [character, if_pos hvalid, Char.ofNat_toNat]
  simp only [hexEscape, htake, naturalFrom?_hexByte _ hc, hlength, if_true, hcharacter]

theorem cook_hex (c : Char) (hc : c.toNat < 128) (rest : List Char) :
    cook ('\\' :: 'x' :: (hexByte c.toNat ++ rest)) = (cook rest).map (c :: ·) := by
  have hescape : simpleEscape? 'x' = none := by decide
  have hdigits : hexEscapeDigits? 'x' = some 2 := by decide
  have hdrop : (hexByte c.toNat ++ rest).drop 2 = rest := rfl
  rw [cook]
  · simp only [hescape, hdigits, hexEscape_hexByte c hc, hdrop]
    cases cook rest <;> rfl
  all_goals simp

/-- **What stands for a character denotes it,** whatever follows. -/
theorem Stands.cook {c : Char} {part : List Char} (h : Stands quote part c) (rest : List Char) :
    cook (part ++ rest) = (cook rest).map (c :: ·) := by
  cases h with
  | plain hc => exact cook_cons_plain (isPlain_eq_true hc).1 rest
  | letter he hdenotes =>
    obtain ⟨hfeed, hreturn, -⟩ := escapeLetters_plain _ he
    exact cook_escape hdenotes rest hfeed hreturn
  | digits hc => exact cook_hex c hc rest

theorem Writing.cook_body (h : Writing quote spell) (text rest : List Char) :
    cook (text.flatMap spell ++ rest) = (cook rest).map (text ++ ·) := by
  induction text with
  | nil => cases h : Literal.cook rest <;> simp [h, Except.map]
  | cons c text ih =>
    rw [List.flatMap_cons, List.append_assoc, (h.stands c).cook, ih]
    cases Literal.cook rest <;> rfl

/-! ### Where a quoted text ends -/

theorem bodyLength_plain {d : Char} (h : isPlain quote d = true) (rest : List Char) :
    bodyLength quote false (d :: rest) = bodyLength.grow 1 (bodyLength quote false rest) := by
  obtain ⟨hslash, hquote, hend⟩ := isPlain_eq_true h
  rw [bodyLength_cons _ _ hslash, if_neg hquote, hend, Bool.false_and, if_neg (by simp)]

theorem grow_grow (m n : Nat) (answer : Nat × Bool) :
    bodyLength.grow m (bodyLength.grow n answer) = bodyLength.grow (n + m) answer := by
  simp [bodyLength.grow, Nat.add_assoc]

/-- What stands for a character belongs to the body of the literal. -/
theorem Stands.bodyLength {c : Char} {part : List Char} (h : Stands quote part c)
    (hquote : quote ∈ ['"', '\x27']) (rest : List Char) :
    bodyLength quote false (part ++ rest) = bodyLength.grow part.length (bodyLength quote false rest) := by
  cases h with
  | plain hc => exact bodyLength_plain hc rest
  | letter he _ =>
    obtain ⟨-, hreturn, -⟩ := escapeLetters_plain _ he
    exact bodyLength_escape _ _ fun he => absurd he hreturn
  | digits hc =>
    have hdigits := hexByte_plain quote hquote _ hc
    rw [hexByte] at *
    simp only [List.mem_cons, List.not_mem_nil, or_false, forall_eq_or_imp, forall_eq] at hdigits
    simp only [List.cons_append, List.nil_append]
    rw [bodyLength_escape _ _ (by simp), bodyLength_plain hdigits.1, bodyLength_plain hdigits.2,
      grow_grow, grow_grow]
    rfl

theorem Writing.isQuote_eq (h : Writing quote spell) : Scan.isQuote quote = true := by
  have hall : ∀ quote ∈ ['"', '\x27'], Scan.isQuote quote = true := by decide
  exact hall quote h.isQuote

theorem Writing.ne_slash (h : Writing quote spell) : quote ≠ '\\' := by
  have hall : ∀ quote ∈ ['"', '\x27'], quote ≠ '\\' := by decide
  exact hall quote h.isQuote

theorem Writing.bodyLength_body (h : Writing quote spell) (text rest : List Char) :
    bodyLength quote false (text.flatMap spell ++ quote :: rest) =
      ((text.flatMap spell).length + 1, true) := by
  induction text with
  | nil => rw [List.flatMap_nil, List.nil_append, bodyLength_cons _ _ h.ne_slash, if_pos rfl]; rfl
  | cons c text ih =>
    rw [List.flatMap_cons, List.append_assoc, (h.stands c).bodyLength h.isQuote, ih, List.length_append]
    simp only [bodyLength.grow, Prod.mk.injEq, and_true]
    omega

/-- A quoted text that is not empty does not begin with its quote. -/
theorem Writing.head?_body (h : Writing quote spell) (text : List Char) :
    (text.flatMap spell).head? ≠ some quote := by
  cases text with
  | nil => simp
  | cons c text =>
    have hslash : '\\' ≠ quote := h.ne_slash.symm
    rw [List.flatMap_cons]
    generalize hpart : spell c = part
    cases hpart ▸ h.stands c with
    | plain hc => simpa using (isPlain_eq_true hc).2.1
    | letter _ _ => simpa using hslash
    | digits _ => simpa using hslash

/-- Two quotes at the beginning of a quoted text never become three. -/
theorem Writing.take_body (h : Writing quote spell) (text : List Char) {rest : List Char}
    (hrest : rest.head? ≠ some quote) :
    (text.flatMap spell ++ quote :: rest).take 2 ≠ [quote, quote] := by
  have hhead := h.head?_body text
  cases hbody : text.flatMap spell with
  | nil =>
    -- the empty text is two quotes, and what follows is no third
    cases rest with
    | nil => simp
    | cons d rest => simpa using hrest
  | cons d more =>
    rw [hbody] at hhead
    have hd : d ≠ quote := by simpa using hhead
    simp [hd]

theorem Writing.literalLexeme (h : Writing quote spell) (text : List Char) {rest : List Char}
    (hrest : rest.head? ≠ some quote) :
    literalLexeme (between quote spell text ++ rest) 0 =
      some (.string, (between quote spell text).length) := by
  have hfound : literalLength (between quote spell text ++ rest) =
      ((between quote spell text).length, true) := by
    rw [between, List.cons_append, List.append_assoc, List.singleton_append, literalLength_cons,
      if_neg (h.take_body text hrest), h.bodyLength_body]
    simp [bodyLength.grow]
  simp [Scan.literalLexeme, hfound]

/-- **A quoted text is one literal** in front of anything but another quote. -/
theorem Writing.lexeme (h : Writing quote spell) (text : List Char) {rest : List Char}
    (hrest : rest.head? ≠ some quote) :
    lexeme (between quote spell text ++ rest) = some (.string, (between quote spell text).length) := by
  have hall : ∀ quote ∈ ['"', '\x27'],
      quote ≠ '$' ∧ quote ≠ '.' ∧ quote.isDigit = false ∧ Scan.isQuote quote = true := by decide
  obtain ⟨hmarker, hpoint, hdigit, hquote⟩ := hall quote h.isQuote
  have hliteral := h.literalLexeme text hrest
  rw [between, List.cons_append] at hliteral ⊢
  rw [lexeme_cons, if_neg hmarker, if_neg (by simp [startsNumber_cons, hdigit, hpoint]), if_pos hquote]
  exact hliteral

theorem lexeme_quoteChars (text : List Char) {rest : List Char} (hrest : rest.head? ≠ some '"') :
    lexeme (quoteChars text ++ rest) = some (.string, (quoteChars text).length) :=
  writing_quoteChar.lexeme text hrest

/-! ### Reading a quoted text back -/

/-- **The quotes around the body of a literal:** one, or three of a kind. -/
def IsDelimiter (delim : List Char) : Prop :=
  ∃ quote, isQuote quote = true ∧ (delim = [quote] ∨ delim = [quote, quote, quote])

theorem delimiter_of_three {quote : Char} (h : isQuote quote = true) (rest : List Char) :
    delimiter (quote :: quote :: quote :: rest) = [quote, quote, quote] := by
  rw [isQuote, Bool.or_eq_true, beq_iff_eq, beq_iff_eq] at h
  rcases h with rfl | rfl
  · rfl
  · rfl

theorem delimiter_of_one {quote : Char} {rest : List Char} (h : rest.take 2 ≠ [quote, quote]) :
    delimiter (quote :: rest) = [quote] := by
  have hthree {q : Char} : (quote :: rest).take 3 ≠ [q, q, q] := by
    rw [List.take_succ_cons]
    rintro heq
    obtain ⟨rfl, heq⟩ := List.cons_eq_cons.1 heq
    exact h heq
  rw [delimiter, if_neg (not_or.2 ⟨hthree, hthree⟩)]
  rfl

theorem splitLetters_append (letters : List Char) {quoted : List Char} {c : Char}
    (hletters : ∀ d ∈ letters, isQuote d = false) (hc : isQuote c = true) :
    splitLetters (letters ++ c :: quoted) = (letters, c :: quoted) := by
  have hkept : ∀ d ∈ letters, (!(d == '"' || d == '\x27')) = true := fun d hd => by
    have hplain := hletters d hd
    rw [isQuote] at hplain
    rw [hplain]
    rfl
  rw [isQuote] at hc
  rw [splitLetters, List.span_eq_takeWhile_dropWhile, List.takeWhile_append_of_pos hkept,
    List.dropWhile_append_of_pos hkept, List.takeWhile_cons, List.dropWhile_cons, hc]
  simp

/-- **A literal denotes its body if there is an `r` among its letters,** and else what its body denotes. -/
theorem unquoteChars_eq (letters : List Char) {delim body : List Char}
    (hletters : ∀ c ∈ letters, isQuote c = false) (hdelim : IsDelimiter delim)
    (hparts : delimiter (delim ++ (body ++ delim)) = delim) :
    unquoteChars (letters ++ (delim ++ (body ++ delim))) =
      if 'r' ∈ letters.map Char.toLower then .ok body else cook body := by
  obtain ⟨quote, rest, hquote, hcons⟩ : ∃ quote rest, isQuote quote = true ∧ delim = quote :: rest := by
    obtain ⟨quote, hquote, rfl | rfl⟩ := hdelim
    · exact ⟨quote, _, hquote, rfl⟩
    · exact ⟨quote, _, hquote, rfl⟩
  have hsplit : splitLetters (letters ++ (delim ++ (body ++ delim))) = (letters, delim ++ (body ++ delim)) := by
    rw [hcons]
    exact splitLetters_append letters hletters hquote
  have hbody : dropEnd? delim ((delim ++ (body ++ delim)).drop delim.length) = some body := by
    rw [List.drop_left]
    simp [dropEnd?]
  have hne : delim ++ (body ++ delim) ≠ [] := by simp [hcons]
  unfold unquoteChars
  rw [hsplit]
  split
  · next hnil => exact absurd (congrArg Prod.snd hnil) hne
  · next heq =>
    obtain ⟨rfl, rfl⟩ := Prod.mk.inj heq
    simp only [hparts, hbody]

/-- A quoted text has no letters in front of it. -/
theorem Writing.splitLetters (h : Writing quote spell) (text : List Char) :
    splitLetters (between quote spell text) = ([], between quote spell text) :=
  splitLetters_append [] (by simp) h.isQuote_eq

/-- **A quoted text denotes the text.** -/
theorem Writing.unquoteChars (h : Writing quote spell) (text : List Char) :
    unquoteChars (between quote spell text) = .ok text := by
  have hdelimiter : delimiter (between quote spell text) = [quote] :=
    delimiter_of_one (h.take_body text (by simp))
  have hcook : cook (text.flatMap spell) = .ok text := by
    have hall := h.cook_body text []
    rwa [List.append_nil, cook, Except.map, List.append_nil] at hall
  have hparts := unquoteChars_eq [] (by simp) ⟨quote, h.isQuote_eq, .inl rfl⟩ hdelimiter
  rwa [List.map_nil, if_neg List.not_mem_nil, hcook] at hparts

theorem Writing.unquote (h : Writing quote spell) (text : String) :
    unquote (String.ofList (between quote spell text.toList)) = .ok text := by
  rw [Literal.unquote, String.toList_ofList, h.unquoteChars, Except.map, String.ofList_toList]

/-- A text written in the way of sources denotes the text. -/
theorem unquote_quote (text : String) : Literal.unquote (Literal.quote text) = .ok text :=
  writing_quoteChar.unquote text

/-- A text written in the way of host values denotes the text. -/
theorem unquote_quoteText (text : String) : Literal.unquote (quoteText text) = .ok text :=
  (writing_quoteTextChar (quoteFor_mem text.toList)).unquote text

/-! ### Lines -/

theorem Stands.oneLine {c : Char} {part : List Char} (h : Stands quote part c)
    (hquote : quote ∈ ['"', '\x27']) : ∀ d ∈ part, endsLine d = false := by
  cases h with
  | plain hc => simpa using (isPlain_eq_true hc).2.2
  | letter he _ => simpa [endsLine] using (escapeLetters_plain _ he).2.2
  | digits hc =>
    simp only [List.mem_cons, forall_eq_or_imp]
    exact ⟨rfl, rfl, fun d hd => (isPlain_eq_true (hexByte_plain quote hquote _ hc d hd)).2.2⟩

/-- A quoted text lies on one line. -/
theorem oneLine_quoteChars (text : List Char) : ∀ d ∈ quoteChars text, endsLine d = false := by
  intro d hd
  simp only [quoteChars, quoteBody, List.mem_cons, List.mem_append, List.mem_flatMap,
    List.not_mem_nil, or_false] at hd
  rcases hd with rfl | ⟨c, -, hd⟩ | rfl
  · rfl
  · exact (writing_quoteChar.stands c).oneLine (by decide) d hd
  · rfl

end Quasiquote.Literal
