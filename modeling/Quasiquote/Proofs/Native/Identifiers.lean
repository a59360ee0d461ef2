import Mathlib.Data.List.Chain
import Mathlib.Data.List.TakeWhile
import Quasiquote.Proofs.Basic
import Quasiquote.Proofs.Native.Lexical

/-!
# Reading identifiers

The reader of identifiers takes a text as it stands, without joining its lines. Line joins outside of pieces
are passed like other characters. Within pieces they can end a comment or a literal too soon, or not in time.

## Main Definitions

* `Numeral` — numbers that the reader takes for one number
* `Closes`, `Ends` — block comments and literals that end for the reader where they end in C

## Main Statements

* `identifiers_append`, `identifiers_word_append` — what ends before a mark, and words, are read on their own
* `identifiers_numeral` — no identifier is read in a number
* `identifiers_afterLine`, `identifiers_afterComment`, `identifiers_afterLiteral` — what is read behind comments
  and literals
-/

namespace Quasiquote.Native

open Lexical

section

variable {c : Char} {code rest : List Char}

/-! ### One step of the reader -/

theorem isWordPart_eq_isBasic (c : Char) : isWordPart c = isBasic c := Bool.or_comm _ _

theorem isWordStart_eq_isBasic (hdigit : c.isDigit = false) : isWordStart c = isBasic c := by
  rw [isWordStart, isBasic, Char.isAlphanum, hdigit, Bool.or_false, Bool.or_comm]

theorem identifiers_line (rest : List Char) :
    identifiers ('/' :: '/' :: rest) = identifiers (afterLine rest) := by
  rw [identifiers]

theorem identifiers_block (rest : List Char) :
    identifiers ('/' :: '*' :: rest) = identifiers (afterComment rest) := by
  rw [identifiers]

/-- What does not begin a comment is a literal, an identifier, a number or nothing of these. -/
theorem identifiers_cons (hc : c = '/' → ∀ d ∈ rest.head?, d ≠ '/' ∧ d ≠ '*') :
    identifiers (c :: rest) =
      if c = '"' ∨ c = '\x27' then identifiers (afterLiteral c rest)
      else if isWordStart c then
        (c :: rest.takeWhile isWordPart) :: identifiers (rest.dropWhile isWordPart)
      else if c.isDigit then identifiers (rest.dropWhile isNumberPart)
      else identifiers rest := by
  rw [identifiers]
  · rintro rest rfl rfl
    exact (hc rfl '/' rfl).1 rfl
  · rintro rest rfl rfl
    exact (hc rfl '*' rfl).2 rfl

theorem identifiers_quote {quote : Char} (h : quote = '"' ∨ quote = '\x27') (rest : List Char) :
    identifiers (quote :: rest) = identifiers (afterLiteral quote rest) := by
  rw [identifiers_cons, if_pos h]
  rintro rfl
  simp at h

/-- What begins nothing is passed. -/
theorem identifiers_pass (hc : c = '/' → ∀ d ∈ rest.head?, d ≠ '/' ∧ d ≠ '*') (hquote : c ≠ '"' ∧ c ≠ '\x27')
    (hstart : isWordStart c = false) (hdigit : c.isDigit = false) :
    identifiers (c :: rest) = identifiers rest := by
  rw [identifiers_cons hc, if_neg (not_or.2 hquote), hstart, hdigit]
  rfl

/-- A text of the characters of line joins is passed. -/
theorem identifiers_joins_append {text : List Char} (h : ∀ c ∈ text, c = '\\' ∨ c = '\r' ∨ c = '\n')
    (code : List Char) : identifiers (text ++ code) = identifiers code := by
  induction text with
  | nil => rfl
  | cons c text ih =>
    have hc : c ≠ '/' ∧ (c ≠ '"' ∧ c ≠ '\x27') ∧ isWordStart c = false ∧ c.isDigit = false := by
      rcases h c List.mem_cons_self with rfl | rfl | rfl <;> decide
    obtain ⟨hslash, hquote, hstart, hdigit⟩ := hc
    rw [List.cons_append, identifiers_pass (fun heq => absurd heq hslash) hquote hstart hdigit]
    exact ih fun d hd => h d (List.mem_cons_of_mem _ hd)

theorem identifiers_joinText_append (joins : List LineJoin) (code : List Char) :
    identifiers (joinText joins ++ code) = identifiers code :=
  identifiers_joins_append (fun _ => mem_joinText) code

theorem identifiers_spelled_cons (g : Glyph) (gs : List Glyph) (text : List Char) :
    identifiers (spelled (g :: gs) ++ text) = identifiers (g.char :: (spelled gs ++ text)) := by
  rw [spelled_cons, List.append_assoc, identifiers_joinText_append, List.cons_append]

/-- A text whose lines are joined in front only is read as it is joined. -/
theorem identifiers_unbroken {gs : List Glyph} (h : Unbroken gs) :
    identifiers (spelled gs) = identifiers (joined gs) := by
  cases gs with
  | nil => rfl
  | cons g gs =>
    have htail : spelled gs = joined gs := spelled_of_forall_lead h
    rw [spelled_cons, identifiers_joinText_append, htail]
    rfl

theorem identifiers_joins {text : List Char} (h : ∀ c ∈ text, c = '\\' ∨ c = '\r' ∨ c = '\n') :
    identifiers text = [] := by
  simpa [identifiers] using identifiers_joins_append h []

/-! ### Words and numbers -/

theorem takeWhile_append_stop {p : Char → Bool} (h : ∀ c ∈ rest.head?, p c = false) (text : List Char) :
    (text ++ rest).takeWhile p = text.takeWhile p := by
  induction text with
  | nil =>
    cases rest with
    | nil => rfl
    | cons c rest => simp [h c rfl]
  | cons c text ih => simp [List.takeWhile_cons, ih]

theorem dropWhile_append_stop {p : Char → Bool} (h : ∀ c ∈ rest.head?, p c = false) (text : List Char) :
    (text ++ rest).dropWhile p = text.dropWhile p ++ rest := by
  induction text with
  | nil =>
    cases rest with
    | nil => rfl
    | cons c rest => simp [h c rfl]
  | cons c text ih =>
    cases hc : p c with
    | true => simp [hc, ih]
    | false => simp [hc]

/-- What comments and literals begin with. -/
def marks : List Char := ['/', '"', '\x27']

/-- **A text without marks** is read on its own, if no word or number goes on behind it. -/
theorem identifiers_append {text : List Char} (htext : ∀ c ∈ text, c ∉ marks)
    (hrest : ∀ c ∈ rest.head?, isWordPart c = false ∧ c ≠ '.') :
    identifiers (text ++ rest) = identifiers text ++ identifiers rest := by
  have hword : ∀ c ∈ rest.head?, isWordPart c = false := fun c hc => (hrest c hc).1
  have hnumber : ∀ c ∈ rest.head?, isNumberPart c = false := by
    intro c hc
    obtain ⟨hpart, hpoint⟩ := hrest c hc
    simp only [isWordPart, Bool.or_eq_false_iff] at hpart
    simp [isNumberPart, hpart.2, hpoint]
  have hslash : ∀ {c : Char} {text : List Char}, (∀ d ∈ c :: text, d ∉ marks) → c ≠ '/' := by
    rintro _ text h rfl
    exact h '/' List.mem_cons_self (by decide)
  fun_induction identifiers text with
  | case1 => rfl
  | case2 text => exact absurd rfl (hslash htext)
  | case3 text => exact absurd rfl (hslash htext)
  | case4 c text _ _ hquote =>
    refine absurd ?_ (htext c List.mem_cons_self)
    rcases hquote with rfl | rfl <;> decide
  | case5 c text _ _ hquote hstart ih =>
    have hleft := ih fun d hd => htext d (List.mem_cons_of_mem _ ((List.dropWhile_sublist _).mem hd))
    rw [List.cons_append, identifiers_cons fun heq => absurd heq (hslash htext), if_neg hquote, if_pos hstart,
      takeWhile_append_stop hword, dropWhile_append_stop hword, hleft, List.cons_append]
  | case6 c text _ _ hquote hstart hdigit ih =>
    have hleft := ih fun d hd => htext d (List.mem_cons_of_mem _ ((List.dropWhile_sublist _).mem hd))
    rw [List.cons_append, identifiers_cons fun heq => absurd heq (hslash htext), if_neg hquote, if_neg hstart,
      if_pos hdigit, dropWhile_append_stop hnumber, hleft]
  | case7 c text _ _ hquote hstart hdigit ih =>
    have hleft := ih fun d hd => htext d (List.mem_cons_of_mem _ hd)
    rw [List.cons_append, identifiers_cons fun heq => absurd heq (hslash htext), if_neg hquote, if_neg hstart,
      if_neg hdigit, hleft]

/-- **An identifier** is read on its own, if it does not go on. -/
theorem identifiers_word_append {text : List Char} (hstart : isWordStart c = true)
    (htext : ∀ d ∈ text, isWordPart d = true) (hrest : ∀ d ∈ rest.head?, isWordPart d = false) :
    identifiers (c :: (text ++ rest)) = (c :: text) :: identifiers rest := by
  have hc : c ≠ '/' ∧ ¬ (c = '"' ∨ c = '\x27') := by
    refine ⟨?_, ?_⟩
    · rintro rfl
      exact absurd hstart (by decide)
    · rintro (rfl | rfl) <;> exact absurd hstart (by decide)
  rw [identifiers_cons fun heq => absurd heq hc.1, if_neg hc.2, if_pos hstart, takeWhile_append_stop hrest,
    dropWhile_append_stop hrest, List.takeWhile_eq_self_iff.2 htext, List.dropWhile_eq_nil_iff.2 htext,
    List.nil_append]

theorem identifiers_word {text : List Char} (hstart : isWordStart c = true)
    (htext : ∀ d ∈ text, isWordPart d = true) : identifiers (c :: text) = [c :: text] := by
  have h : identifiers (c :: (text ++ [])) = (c :: text) :: identifiers [] :=
    identifiers_word_append hstart htext nofun
  rwa [List.append_nil, identifiers] at h

/-- Line joins have no marks. -/
theorem notMem_marks_of_mem_spelled {gs : List Glyph} (h : ∀ g ∈ gs, g.char ∉ marks) :
    ∀ c ∈ spelled gs, c ∉ marks := by
  intro c hc
  rcases mem_spelled hc with hjoin | ⟨g, hg, rfl⟩
  · rcases hjoin with rfl | rfl | rfl <;> decide
  · exact h g hg

theorem isWordStart_of_isDigit (h : c.isDigit = true) : isWordStart c = false := by
  have hunderscore : c ≠ '_' := by
    rintro rfl
    exact absurd h (by decide)
  have halpha : c.isAlpha = false := by
    rw [Bool.eq_false_iff]
    intro halpha
    have hletter := isAlpha_range halpha
    have hlast : c.toNat ≤ 57 := (Char.isDigit_iff_toNat.1 h).2
    omega
  simp [isWordStart, hunderscore, halpha]

/-- A number of letters, digits, points and signs, with a digit behind every sign and behind every line
join. -/
def Numeral (gs : List Glyph) : Prop :=
  (∀ g ∈ gs, g.char.isAlphanum = true ∨ g.char ∈ ['.', '+', '-']) ∧
    gs.IsChain fun before g => before.char ∈ ['+', '-'] ∨ g.lead ≠ [] → g.char.isDigit = true

instance (gs : List Glyph) : Decidable (Numeral gs) := inferInstanceAs (Decidable (_ ∧ _))

theorem Numeral.notMem_marks {gs : List Glyph} (h : Numeral gs) : ∀ c ∈ spelled gs, c ∉ marks := by
  refine notMem_marks_of_mem_spelled fun g hg hmark => ?_
  have hall : marks.all (fun c => !(c.isAlphanum || ['.', '+', '-'].contains c)) = true := by decide
  have hnone := List.all_eq_true.1 hall g.char hmark
  rcases h.1 g hg with hpart | hsign
  · simp [hpart] at hnone
  · simp [hsign] at hnone

/-- A sign and a point are passed. -/
theorem identifiers_sign (h : c ∈ ['.', '+', '-']) (rest : List Char) :
    identifiers (c :: rest) = identifiers rest := by
  have hc : c ≠ '/' ∧ (c ≠ '"' ∧ c ≠ '\x27') ∧ isWordStart c = false ∧ c.isDigit = false := by
    simp only [List.mem_cons, List.not_mem_nil, or_false] at h
    rcases h with rfl | rfl | rfl <;> decide
  obtain ⟨hslash, hquote, hstart, hdigit⟩ := hc
  exact identifiers_pass (fun heq => absurd heq hslash) hquote hstart hdigit

/-- From a digit on, the reader passes what it takes for a number. -/
theorem identifiers_digit (hdigit : c.isDigit = true) (rest : List Char) :
    identifiers (c :: rest) = identifiers (rest.dropWhile isNumberPart) := by
  have hc : c ≠ '/' ∧ ¬ (c = '"' ∨ c = '\x27') := by
    refine ⟨?_, ?_⟩
    · rintro rfl
      exact absurd hdigit (by decide)
    · rintro (rfl | rfl) <;> exact absurd hdigit (by decide)
  rw [identifiers_cons fun heq => absurd heq hc.1, if_neg hc.2, isWordStart_of_isDigit hdigit, if_neg nofun,
    if_pos hdigit]

/-- **No identifier is read in a numeral,** neither from its beginning nor within. -/
theorem identifiers_numeral {gs : List Glyph} (h : Numeral gs) :
    ((∀ g ∈ gs.head?, g.lead = [] ∨ g.char.isDigit = true) →
      identifiers ((spelled gs).dropWhile isNumberPart) = []) ∧
    ((∀ g ∈ gs.head?, g.char.isDigit = true) → identifiers (spelled gs) = []) := by
  obtain ⟨hchars, hchain⟩ := h
  induction gs with
  | nil =>
    rw [spelled_nil, List.dropWhile_nil, identifiers]
    exact ⟨fun _ => rfl, fun _ => rfl⟩
  | cons g gs ih =>
    obtain ⟨hnext, hchain⟩ := List.isChain_cons.1 hchain
    obtain ⟨hwithin, hdigits⟩ := ih (fun k hk => hchars k (List.mem_cons_of_mem _ hk)) hchain
    have hrest : identifiers ((spelled gs).dropWhile isNumberPart) = [] := by
      refine hwithin fun k hk => or_iff_not_imp_left.2 fun hlead => hnext k hk (.inr hlead)
    have hdigit (hg : g.char.isDigit = true) : identifiers (spelled (g :: gs)) = [] := by
      rw [spelled_cons, identifiers_joinText_append, identifiers_digit hg, hrest]
    refine ⟨fun hhead => ?_, fun hhead => hdigit (hhead g rfl)⟩
    by_cases hlead : g.lead = []
    · rw [spelled_cons, hlead, joinText_nil, List.nil_append, List.dropWhile_cons]
      split
      · exact hrest
      · next hpart =>
        rw [isNumberPart, Bool.or_eq_true, not_or, beq_iff_eq] at hpart
        have hmem := (hchars g List.mem_cons_self).resolve_left hpart.2
        have hsign := (List.mem_cons.1 hmem).resolve_left hpart.1
        rw [identifiers_sign hmem]
        exact hdigits fun k hk => hnext k hk (.inl hsign)
    · -- a line join ends what is taken for a number
      have hjoin : ∀ c ∈ (spelled (g :: gs)).head?, isNumberPart c = false := by
        intro c hc
        obtain ⟨j, joins, hjoins⟩ := List.exists_cons_of_ne_nil hlead
        have hc : c = '\\' := by
          rw [spelled_cons, hjoins, joinText_cons] at hc
          cases j with
          | lf => exact (Option.some.inj hc).symm
          | crlf => exact (Option.some.inj hc).symm
        rw [hc]
        rfl
      have hsame : (spelled (g :: gs)).dropWhile isNumberPart = spelled (g :: gs) := by
        simpa using dropWhile_append_stop hjoin []
      rw [hsame]
      exact hdigit ((hhead g rfl).resolve_left hlead)

/-- A numeral that begins like a number is passed. -/
theorem identifiers_of_startsNumber {gs : List Glyph} (h : Numeral gs) (hstarts : startsNumber gs = true) :
    identifiers (spelled gs) = [] := by
  cases gs with
  | nil => cases hstarts
  | cons g gs =>
    rcases startsNumber_cons_iff.1 hstarts with hdigit | ⟨hpoint, k, hk, hdigit⟩
    · refine (identifiers_numeral h).2 fun k hk => ?_
      rwa [← Option.some.inj hk]
    · have hrest : Numeral gs := ⟨fun k hk => h.1 k (List.mem_cons_of_mem _ hk), h.2.tail⟩
      rw [spelled_cons, identifiers_joinText_append, hpoint, identifiers_sign (by decide)]
      refine (identifiers_numeral hrest).2 fun m hm => ?_
      rwa [Option.some.inj (hm.symm.trans hk)]

/-! ### Comments -/

theorem identifiers_afterLine_joins {text : List Char} (htext : ∀ c ∈ text, c = '\\' ∨ c = '\r' ∨ c = '\n')
    {code : List Char} (hcode : ∀ c ∈ code.head?, c = '\n') :
    identifiers (afterLine (text ++ code)) = identifiers code := by
  rw [afterLine]
  induction text with
  | nil =>
    cases code with
    | nil => rfl
    | cons c code =>
      obtain rfl := hcode c rfl
      rfl
  | cons c text ih =>
    by_cases hc : c = '\n'
    · subst hc
      exact identifiers_joins_append htext code
    · rw [List.cons_append, List.dropWhile_cons_of_pos (by simpa using hc)]
      exact ih fun d hd => htext d (List.mem_cons_of_mem _ hd)

/-- **The content of a comment up to the end of its line is passed,** if no lines are joined in it. -/
theorem identifiers_afterLine {content after : List Glyph} {trail : List LineJoin}
    (hlead : ∀ g ∈ content, g.lead = []) (hcontent : ∀ g ∈ content, g.char ≠ '\n')
    (hafter : ∀ g ∈ after.head?, g.char = '\n') :
    identifiers (afterLine (spelled content ++ (spelled after ++ joinText trail))) =
      identifiers (spelled after ++ joinText trail) := by
  have hline : ∀ c ∈ joined content, decide (c ≠ '\n') = true := by
    intro c hc
    obtain ⟨g, hg, rfl⟩ := List.mem_map.1 hc
    exact decide_eq_true (hcontent g hg)
  rw [spelled_of_forall_lead hlead, afterLine, List.dropWhile_append_of_pos hline, ← afterLine]
  cases after with
  | nil =>
    rw [spelled_nil, List.nil_append, ← List.append_nil (joinText trail), identifiers_joinText_append]
    exact identifiers_afterLine_joins (fun _ => mem_joinText) fun c hc => nomatch hc
  | cons g after =>
    rw [identifiers_spelled_cons, spelled_cons, List.append_assoc, List.cons_append]
    refine identifiers_afterLine_joins (fun _ => mem_joinText) fun c hc => ?_
    exact (Option.some.inj hc).symm.trans (hafter g rfl)

theorem afterComment_cons (h : c = '*' → ∀ d ∈ rest.head?, d ≠ '/') :
    afterComment (c :: rest) = afterComment rest := by
  rw [afterComment]
  rintro rest rfl rfl
  exact h rfl '/' rfl rfl

theorem afterComment_joinText_append (joins : List LineJoin) (code : List Char) :
    afterComment (joinText joins ++ code) = afterComment code := by
  have h : ∀ c ∈ joinText joins, c ≠ '*' := by
    intro c hc
    rcases mem_joinText hc with rfl | rfl | rfl <;> decide
  generalize joinText joins = text at h ⊢
  induction text with
  | nil => rfl
  | cons c text ih =>
    rw [List.cons_append, afterComment_cons fun heq => absurd heq (h c List.mem_cons_self)]
    exact ih fun d hd => h d (List.mem_cons_of_mem _ hd)

theorem afterComment_spelled_cons (g : Glyph) (gs : List Glyph) (text : List Char) :
    afterComment (spelled (g :: gs) ++ text) = afterComment (g.char :: (spelled gs ++ text)) := by
  rw [spelled_cons, List.append_assoc, afterComment_joinText_append, List.cons_append]

/-- The mark that closes a block comment is not split by a line join. -/
def Closes (content : List Glyph) : Prop :=
  content.IsChain fun star slash => star.char = '*' → slash.char = '/' → slash.lead = []

instance (content : List Glyph) : Decidable (Closes content) :=
  inferInstanceAs (Decidable (List.IsChain _ content))

/-- **The content of a block comment is passed,** if its closing mark is not split. -/
theorem identifiers_afterComment (gs : List Glyph) (trail : List LineJoin)
    (h : Closes (gs.take (commentLength gs))) :
    identifiers (afterComment (spelled gs ++ joinText trail)) =
      identifiers (spelled (gs.drop (commentLength gs)) ++ joinText trail) := by
  fun_induction commentLength gs with
  | case1 star slash rest hclose =>
    obtain ⟨hstar, hslash⟩ := hclose
    have hlead : slash.lead = [] := (List.isChain_cons_cons.1 h).1 hstar hslash
    rw [afterComment_spelled_cons, spelled_cons, hlead, hstar, hslash]
    rfl
  | case2 star slash rest hclose ih =>
    have hopen : star.char = '*' →
        ∀ d ∈ (spelled (slash :: rest) ++ joinText trail).head?, d ≠ '/' := by
      rintro hstar d hd rfl
      rcases head?_spelled_append hd with hd | ⟨g, hg, -, hd⟩
      · exact absurd hd (by decide)
      · obtain rfl := Option.some.inj hg
        exact hclose ⟨hstar, hd⟩
    rw [afterComment_spelled_cons, afterComment_cons hopen]
    exact ih (List.IsChain.tail h)
  | case3 gs hgs =>
    -- nothing closes the comment
    have htrail : afterComment (joinText trail) = [] := by
      simpa [afterComment] using afterComment_joinText_append trail []
    have hnone : afterComment (spelled gs ++ joinText trail) = [] := by
      match gs, hgs with
      | [], _ => exact htrail
      | [g], _ =>
        have hopen : g.char = '*' → ∀ d ∈ (joinText trail).head?, d ≠ '/' := by
          rintro - d hd rfl
          rcases mem_joinText (List.mem_of_head? hd) with hd | hd | hd <;> revert hd <;> decide
        rw [afterComment_spelled_cons, spelled_nil, List.nil_append, afterComment_cons hopen, htrail]
      | star :: slash :: rest, hgs => exact absurd rfl (hgs star slash rest)
    rw [hnone, List.drop_length, spelled_nil, List.nil_append, identifiers_joins fun _ => mem_joinText,
      identifiers]

/-! ### Literals -/

/-- No line join splits an escape sequence, and no backslash is the last character of a line. -/
def keepsEscapes : List Glyph → Bool
  | g :: h :: rest =>
    if g.char = '\\' then h.lead = [] && h.char ≠ '\n' && keepsEscapes rest else keepsEscapes (h :: rest)
  | _ => true

/-- A literal is read to its end: lines are joined at a bare line feed only, and outside escape sequences. -/
def Ends (content : List Glyph) : Prop :=
  (∀ g ∈ content, .crlf ∉ g.lead) ∧ keepsEscapes content = true

instance (content : List Glyph) : Decidable (Ends content) := inferInstanceAs (Decidable (_ ∧ _))

theorem afterLiteral_escape (quote c : Char) (rest : List Char) :
    afterLiteral quote ('\\' :: c :: rest) = afterLiteral quote rest := by
  rw [afterLiteral]

theorem afterLiteral_cons {quote : Char} (hc : c ≠ '\\') (rest : List Char) :
    afterLiteral quote (c :: rest) = if c = quote ∨ c = '\n' then rest else afterLiteral quote rest := by
  rw [afterLiteral]
  exact fun _ _ heq => absurd heq hc

theorem afterLiteral_joinText_append (quote : Char) {joins : List LineJoin} (h : .crlf ∉ joins)
    (code : List Char) : afterLiteral quote (joinText joins ++ code) = afterLiteral quote code := by
  induction joins with
  | nil => rfl
  | cons j joins ih =>
    cases j with
    | lf =>
      rw [joinText_cons, List.append_assoc]
      exact (afterLiteral_escape ..).trans (ih fun hmem => h (List.mem_cons_of_mem _ hmem))
    | crlf => exact absurd List.mem_cons_self h

theorem afterLiteral_suffix (quote : Char) (code : List Char) : afterLiteral quote code <:+ code := by
  fun_induction afterLiteral quote code with
  | case1 => exact List.suffix_refl _
  | case2 c rest ih => exact ih.trans ⟨['\\', c], rfl⟩
  | case3 c rest => exact List.suffix_cons _ _
  | case4 c rest _ _ ih => exact ih.trans (List.suffix_cons _ _)

theorem afterLiteral_spelled_cons (quote : Char) {g : Glyph} (h : .crlf ∉ g.lead) (gs : List Glyph)
    (text : List Char) :
    afterLiteral quote (spelled (g :: gs) ++ text) = afterLiteral quote (g.char :: (spelled gs ++ text)) := by
  rw [spelled_cons, List.append_assoc, afterLiteral_joinText_append quote h, List.cons_append]

theorem identifiers_afterLiteral_joins (quote : Char) {text : List Char}
    (h : ∀ c ∈ text, c = '\\' ∨ c = '\r' ∨ c = '\n') : identifiers (afterLiteral quote text) = [] :=
  identifiers_joins fun c hc => h c ((afterLiteral_suffix quote text).mem hc)

/-- A literal that is open before the last character of the code ends with the code. -/
theorem identifiers_afterLiteral_last (quote c : Char) (trail : List LineJoin) :
    identifiers (afterLiteral quote (c :: joinText trail)) = [] := by
  by_cases hc : c = '\\'
  · refine identifiers_afterLiteral_joins quote fun d hd => ?_
    rcases List.mem_cons.1 hd with rfl | hd
    · exact .inl hc
    · exact mem_joinText hd
  · rw [afterLiteral_cons hc]
    split
    · exact identifiers_joins fun _ => mem_joinText
    · exact identifiers_afterLiteral_joins quote fun _ => mem_joinText

theorem exists_literalLength_eq (quote : Char) (g : Glyph) (gs : List Glyph) :
    ∃ n, literalLength quote (g :: gs) = n + 1 := by
  cases gs with
  | nil => exact ⟨0, rfl⟩
  | cons h rest =>
    rw [literalLength]
    split
    · exact ⟨0, rfl⟩
    · split
      · exact ⟨literalLength quote rest + 1, rfl⟩
      · exact ⟨literalLength quote (h :: rest), rfl⟩

/-- **The content of a literal is passed,** if it is read to its end. -/
theorem identifiers_afterLiteral {quote : Char} (hquote : quote ≠ '\\') (gs : List Glyph)
    (trail : List LineJoin) (h : Ends (gs.take (literalLength quote gs))) :
    identifiers (afterLiteral quote (spelled gs ++ joinText trail)) =
      identifiers (spelled (gs.drop (literalLength quote gs)) ++ joinText trail) := by
  obtain ⟨hlf, hescapes⟩ := h
  fun_induction literalLength quote gs with
  | case1 g k rest hend =>
    have hg : g.char ≠ '\\' := by
      rintro hg
      rcases hend with hend | hend
      · exact hquote (hend.symm.trans hg)
      · exact absurd (hend.symm.trans hg) (by decide)
    rw [afterLiteral_spelled_cons quote (hlf g List.mem_cons_self), afterLiteral_cons hg, if_pos hend]
    rfl
  | case2 g k rest hend hescape ih =>
    obtain ⟨hg, -⟩ := hescape
    simp only [List.take_succ_cons, keepsEscapes, if_pos hg, Bool.and_eq_true, decide_eq_true_eq] at hescapes
    obtain ⟨⟨hlead, -⟩, hescapes⟩ := hescapes
    simp only [List.take_succ_cons] at hlf
    rw [afterLiteral_spelled_cons quote (hlf g List.mem_cons_self), hg, spelled_cons, hlead]
    exact (congrArg identifiers (afterLiteral_escape ..)).trans
      (ih (fun d hd => hlf d (List.mem_cons_of_mem _ (List.mem_cons_of_mem _ hd))) hescapes)
  | case3 g k rest hend hescape ih =>
    obtain ⟨n, hn⟩ := exists_literalLength_eq quote k rest
    have hg : g.char ≠ '\\' ∧ keepsEscapes ((k :: rest).take (literalLength quote (k :: rest))) = true := by
      simp only [hn, List.take_succ_cons, keepsEscapes] at hescapes ⊢
      by_cases hg : g.char = '\\'
      · -- a backslash in front of a line feed is a line join
        simp only [if_pos hg, Bool.and_eq_true, decide_eq_true_eq] at hescapes
        exact absurd ⟨hg, hescapes.1.2⟩ hescape
      · exact ⟨hg, by simpa [if_neg hg] using hescapes⟩
    rw [List.take_succ_cons] at hlf
    rw [afterLiteral_spelled_cons quote (hlf g List.mem_cons_self), afterLiteral_cons hg.1, if_neg hend]
    exact ih (fun d hd => hlf d (List.mem_cons_of_mem _ hd)) hg.2
  | case4 gs hgs =>
    rw [List.take_length] at hlf
    have hnone : identifiers (afterLiteral quote (spelled gs ++ joinText trail)) = [] := by
      match gs, hgs with
      | [], _ => exact identifiers_afterLiteral_joins quote fun _ => mem_joinText
      | [g], _ =>
        rw [afterLiteral_spelled_cons quote (hlf g List.mem_cons_self)]
        exact identifiers_afterLiteral_last quote g.char trail
      | g :: k :: rest, hgs => exact absurd rfl (hgs g k rest)
    rw [hnone, List.drop_length, spelled_nil, List.nil_append, identifiers_joins fun _ => mem_joinText]

end

/-! ### Pieces -/

section

variable {g : Glyph} {rest : List Glyph}

theorem identifiers_lineComment (hmark : startsWith ['/', '/'] (g :: rest) = true)
    (h : Unbroken (g :: rest.take 1)) (hlead : ∀ k ∈ (rest.drop 1).takeWhile isInLine, k.lead = [])
    (trail : List LineJoin) :
    identifiers (spelled (g :: rest) ++ joinText trail) =
      identifiers (spelled ((rest.drop 1).dropWhile isInLine) ++ joinText trail) := by
  obtain ⟨hg, slash, gs, rfl, hslash⟩ := startsWith_pair.1 hmark
  have hunbroken : slash.lead = [] := h slash List.mem_cons_self
  have hcontent : ∀ k ∈ gs.takeWhile isInLine, k.char ≠ '\n' := by
    intro k hk
    simpa [isInLine] using List.mem_takeWhile_imp hk
  have hafter : ∀ k ∈ (gs.dropWhile isInLine).head?, k.char = '\n' := by
    intro k hk
    have hnot := List.head?_dropWhile_not isInLine gs
    rw [Option.mem_def.1 hk] at hnot
    simpa [isInLine] using hnot
  have hgs : spelled gs = spelled (gs.takeWhile isInLine) ++ spelled (gs.dropWhile isInLine) := by
    rw [← spelled_append, List.takeWhile_append_dropWhile]
  rw [identifiers_spelled_cons, spelled_cons, hunbroken, hg, hslash, hgs, joinText_nil, List.nil_append,
    List.cons_append, identifiers_line, List.append_assoc]
  exact identifiers_afterLine hlead hcontent hafter

theorem identifiers_blockComment (hmark : startsWith ['/', '*'] (g :: rest) = true)
    (h : Unbroken (g :: rest.take 1)) {content : List Glyph} (hcontent : rest.drop 1 = content)
    (hcloses : Closes (content.take (commentLength content))) (trail : List LineJoin) :
    identifiers (spelled (g :: rest) ++ joinText trail) =
      identifiers (spelled (content.drop (commentLength content)) ++ joinText trail) := by
  obtain ⟨hg, star, gs, rfl, hstar⟩ := startsWith_pair.1 hmark
  subst hcontent
  have hlead : star.lead = [] := h star List.mem_cons_self
  rw [identifiers_spelled_cons, spelled_cons, hlead, hg, hstar]
  exact (identifiers_block _).trans (identifiers_afterComment gs trail hcloses)

theorem quote_of_mem_literalMarks {encoding : List Char} {quote : Char} (h : (encoding, quote) ∈ literalMarks) :
    quote = '"' ∨ quote = '\x27' := by
  have hall : literalMarks.all (fun m => ['"', '\x27'].contains m.2) := by decide
  simpa using List.all_eq_true.1 hall _ h

theorem identifiers_encoding {encoding : List Char} {quote : Char} (h : (encoding, quote) ∈ literalMarks) :
    identifiers encoding = if encoding = [] then [] else [encoding] := by
  have hall : literalMarks.all (fun m => m.1.all isWordPart && (m.1.head?.all isWordStart)) = true := by decide
  have hword := List.all_eq_true.1 hall _ h
  rw [Bool.and_eq_true] at hword
  cases encoding with
  | nil => rw [identifiers, if_pos rfl]
  | cons c text =>
    have hparts := List.all_eq_true.1 hword.1
    rw [identifiers_word (by simpa using hword.2) fun d hd => hparts d (List.mem_cons_of_mem _ hd),
      if_neg (List.cons_ne_nil _ _)]

theorem notMem_marks_of_mem_literalMarks {encoding : List Char} {quote : Char}
    (h : (encoding, quote) ∈ literalMarks) : ∀ c ∈ encoding, c ∉ marks := by
  have hall : literalMarks.all (fun m => m.1.all (!marks.contains ·)) = true := by decide
  intro c hc
  simpa using List.all_eq_true.1 (List.all_eq_true.1 hall _ h) c hc

/-- The mark of a literal is its encoding prefix and its quote. -/
theorem joined_mark {encoding : List Char} {quote : Char}
    (hmark : literalMark? (g :: rest) = some (encoding, quote)) :
    joined (g :: rest.take encoding.length) = encoding ++ [quote] := by
  have hstarts : startsWith (encoding ++ [quote]) (g :: rest) = true := by
    have hfound := List.find?_some hmark
    exact hfound
  have htake := List.prefix_iff_eq_take.1 (List.isPrefixOf_iff_prefix.1 hstarts)
  rw [List.length_append, List.length_singleton, joined, ← List.map_take, List.take_succ_cons] at htake
  exact htake.symm

/-- Without line joins, the prefix of a literal is read as a word, and the literal is passed. -/
theorem identifiers_literal {encoding : List Char} {quote : Char}
    (hmark : literalMark? (g :: rest) = some (encoding, quote))
    (hunbroken : Unbroken (g :: rest.take encoding.length).dropLast) {content : List Glyph}
    (hcontent : rest.drop encoding.length = content) (hends : Ends (content.take (literalLength quote content)))
    (trail : List LineJoin) :
    identifiers (spelled (g :: rest) ++ joinText trail) =
      identifiers encoding ++
        identifiers (spelled (content.drop (literalLength quote content)) ++ joinText trail) := by
  have hmem := List.mem_of_find?_eq_some hmark
  have hquote := quote_of_mem_literalMarks hmem
  have hjoined := joined_mark hmark
  -- the quote is the last character of the mark
  obtain ⟨front, q, hsplit⟩ : ∃ front q, g :: rest.take encoding.length = front ++ [q] :=
    ⟨_, _, (List.dropLast_concat_getLast (List.cons_ne_nil _ _)).symm⟩
  rw [hsplit, joined, List.map_append] at hjoined
  obtain ⟨hfront, hq⟩ := List.append_inj' hjoined rfl
  have hq : q.char = quote := (List.cons.inj hq).1
  have htext : spelled (g :: rest) = spelled front ++ spelled (q :: content) := by
    rw [← spelled_append]
    refine congrArg spelled ?_
    calc g :: rest = (g :: rest.take encoding.length) ++ rest.drop encoding.length := by
          rw [List.cons_append, List.take_append_drop]
      _ = (front ++ [q]) ++ content := by rw [hsplit, hcontent]
      _ = front ++ q :: content := by rw [List.append_assoc, List.singleton_append]
  have hsame : identifiers (spelled front) = identifiers encoding := by
    rw [hsplit, List.dropLast_concat] at hunbroken
    rw [← hfront]
    exact identifiers_unbroken hunbroken
  have hmarks : ∀ c ∈ spelled front, c ∉ marks := by
    refine notMem_marks_of_mem_spelled fun k hk => notMem_marks_of_mem_literalMarks hmem k.char ?_
    rw [← hfront]
    exact List.mem_map_of_mem hk
  rw [htext, List.append_assoc, identifiers_append hmarks, identifiers_spelled_cons, hq,
    identifiers_quote hquote, identifiers_afterLiteral _ content trail hends, hsame]
  · rcases hquote with rfl | rfl <;> decide
  · refine stop_spelled (by decide) (fun k hk => ?_) trail
    rw [← Option.some.inj hk, hq]
    rcases hquote with rfl | rfl <;> decide

theorem identifiers_number {extended : Char → Bool} (hstarts : startsNumber (g :: rest) = true)
    (h : Numeral (g :: rest.take (numberLength extended rest))) (trail : List LineJoin) :
    identifiers (spelled (g :: rest) ++ joinText trail) =
      identifiers (spelled (rest.drop (numberLength extended rest)) ++ joinText trail) := by
  have htext : spelled (g :: rest) = spelled (g :: rest.take (numberLength extended rest)) ++
      spelled (rest.drop (numberLength extended rest)) := by
    rw [← spelled_append, List.cons_append, List.take_append_drop]
  have hnone := identifiers_of_startsNumber h (startsNumber_take extended hstarts)
  rw [htext, List.append_assoc, identifiers_append h.notMem_marks, hnone, List.nil_append]
  refine stop_spelled (by decide) (fun k hk => ?_) trail
  have hstop := numberLength_stop extended rest k hk
  simp only [isNumeric, isNamePart, Bool.or_eq_false_iff, beq_eq_false_iff_ne] at hstop
  exact ⟨isWordPart_eq_isBasic k.char ▸ hstop.1.1, hstop.2⟩

theorem identifiers_identifier {extended : Char → Bool} (hnumber : ¬ startsNumber (g :: rest) = true)
    (h : Unbroken (g :: rest.takeWhile (isNamePart extended)))
    (hword : ∀ k ∈ g :: rest.takeWhile (isNamePart extended), isBasic k.char = true)
    (trail : List LineJoin) :
    identifiers (spelled (g :: rest) ++ joinText trail) =
      joined (g :: rest.takeWhile (isNamePart extended)) ::
        identifiers (spelled (rest.dropWhile (isNamePart extended)) ++ joinText trail) := by
  have hfront :
      spelled (rest.takeWhile (isNamePart extended)) = joined (rest.takeWhile (isNamePart extended)) :=
    spelled_of_forall_lead h
  have htext : spelled rest = joined (rest.takeWhile (isNamePart extended)) ++
      spelled (rest.dropWhile (isNamePart extended)) := by
    rw [← hfront, ← spelled_append, List.takeWhile_append_dropWhile]
  rw [identifiers_spelled_cons, htext, List.append_assoc]
  refine identifiers_word_append ?_ (fun c hc => ?_) (stop_spelled (by decide) (fun k hk => ?_) trail)
  · rw [isWordStart_eq_isBasic (isDigit_of_not_startsNumber hnumber)]
    exact hword g List.mem_cons_self
  · obtain ⟨k, hk, rfl⟩ := List.mem_map.1 hc
    rw [isWordPart_eq_isBasic]
    exact hword k (List.mem_cons_of_mem _ hk)
  · have hnot := List.head?_dropWhile_not (isNamePart extended) rest
    rw [Option.mem_def.1 hk] at hnot
    rw [isWordPart_eq_isBasic]
    exact (Bool.or_eq_false_iff.1 hnot).1

theorem identifiers_other (hline : ¬ startsWith ['/', '/'] (g :: rest) = true)
    (hblock : ¬ startsWith ['/', '*'] (g :: rest) = true) (hmark : literalMark? (g :: rest) = none)
    (hnumber : ¬ startsNumber (g :: rest) = true) (hname : isBasic g.char = false) (trail : List LineJoin) :
    identifiers (spelled (g :: rest) ++ joinText trail) = identifiers (spelled rest ++ joinText trail) := by
  rw [identifiers_spelled_cons]
  have hdigit := isDigit_of_not_startsNumber hnumber
  refine identifiers_pass ?_ ?_ (isWordStart_eq_isBasic hdigit ▸ hname) hdigit
  · intro hg
    refine stop_spelled (by decide) (fun k hk => ?_) trail
    obtain ⟨gs, rfl⟩ : ∃ gs, rest = k :: gs := ⟨rest.tail, List.eq_cons_of_mem_head? hk⟩
    exact ⟨fun hk => hline (startsWith_pair.2 ⟨hg, k, gs, rfl, hk⟩),
      fun hk => hblock (startsWith_pair.2 ⟨hg, k, gs, rfl, hk⟩)⟩
  · have hnone := List.find?_eq_none.1 hmark
    refine ⟨fun hg => hnone ([], '"') (by decide) ?_, fun hg => hnone ([], '\x27') (by decide) ?_⟩
    · simp [startsWith, hg]
    · simp [startsWith, hg]

end

end Quasiquote.Native
