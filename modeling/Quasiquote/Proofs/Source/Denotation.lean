import Mathlib.Algebra.Group.Nat.Defs
import Quasiquote.Proofs.Basic
import Quasiquote.Proofs.Source.Quoted
import Quasiquote.Proofs.Source.Words

/-!
# What literals denote

A literal that is read from a source denotes a text unless an escape in it is at fault. Two scans agree on
where it begins and ends: that of the reader, which steps over an escape as a backslash and one character,
and that of the literal's text, which takes the longer escapes as a whole. They agree because no digit of
an escape is a backslash.

## Main Definitions

* `Literal.WellEscaped` — text in which every backslash has a character behind it
* `Literal.BadEscape` — the first hexadecimal escape that denotes no character
* `Literal.IsDelimiter` — the quotes around the body of a literal

## Main Statements

* `Literal.cook_eq_error_iff` — when a body denotes nothing
* `Scan.literalLexeme_parts` — the quotes and the body of a literal
* `Lexer.literal_denotes` — what a literal read from a source denotes
-/

namespace Quasiquote

namespace Literal

open Scan

variable {e : LiteralError} {body rest : List Char}

/-! ### Escapes -/

/-- **Text in which every backslash has a character behind it.** -/
inductive WellEscaped : List Char → Prop
  | nil : WellEscaped []
  | plain {c : Char} {rest : List Char} : c ≠ '\\' → WellEscaped rest → WellEscaped (c :: rest)
  | escape (c : Char) {rest : List Char} : WellEscaped rest → WellEscaped ('\\' :: c :: rest)

/-- The hexadecimal digits. -/
def hexDigits : List Char := "0123456789abcdefABCDEF".toList

/-- **A hexadecimal escape that denotes no character,** and why. The text is that behind the backslash. -/
inductive Faulty : List Char → LiteralError → Prop
  /-- There are fewer digits than the letter calls for. -/
  | truncated {letter : Char} {n : Nat} {rest : List Char} : hexEscapeDigits? letter = some n →
      ¬ (n ≤ rest.length ∧ ∀ c ∈ rest.take n, c ∈ hexDigits) →
      Faulty (letter :: rest) (.truncatedEscape n)
  /-- No character has this number. -/
  | noCharacter {letter : Char} {n value : Nat} {rest : List Char} : hexEscapeDigits? letter = some n →
      n ≤ rest.length → Decimal.naturalFrom? 16 0 (rest.take n) = some value → ¬ value.isValidChar →
      Faulty (letter :: rest) (.noCharacter value)

/-- **The first hexadecimal escape of a body that denotes no character,** and why. -/
inductive BadEscape : List Char → LiteralError → Prop
  | here {rest : List Char} {e : LiteralError} : Faulty rest e → BadEscape ('\\' :: rest) e
  | plain {c : Char} {rest : List Char} {e : LiteralError} : c ≠ '\\' → BadEscape rest e →
      BadEscape (c :: rest) e
  | escape {c : Char} {rest : List Char} {e : LiteralError} : (∀ other, ¬ Faulty (c :: rest) other) →
      BadEscape rest e → BadEscape ('\\' :: c :: rest) e

theorem wellEscaped_cons_iff {c : Char} (hc : c ≠ '\\') : WellEscaped (c :: rest) ↔ WellEscaped rest := by
  refine ⟨fun h => ?_, .plain hc⟩
  cases h with
  | plain _ hrest => exact hrest
  | escape => exact absurd rfl hc

theorem wellEscaped_escape_iff {c : Char} : WellEscaped ('\\' :: c :: rest) ↔ WellEscaped rest := by
  refine ⟨fun h => ?_, .escape c⟩
  cases h with
  | plain hslash => exact absurd rfl hslash
  | escape _ hrest => exact hrest

theorem not_wellEscaped_slash : ¬ WellEscaped ['\\'] := by
  rintro (_ | ⟨hslash, -⟩)
  exact hslash rfl

theorem badEscape_cons_iff {c : Char} (hc : c ≠ '\\') : BadEscape (c :: rest) e ↔ BadEscape rest e := by
  refine ⟨fun h => ?_, .plain hc⟩
  cases h with
  | here => exact absurd rfl hc
  | plain _ hrest => exact hrest
  | escape => exact absurd rfl hc

/-- An escape that is not faulty is passed over. -/
theorem badEscape_escape_iff {c : Char} (h : ∀ other, ¬ Faulty (c :: rest) other) :
    BadEscape ('\\' :: c :: rest) e ↔ BadEscape rest e := by
  refine ⟨fun hbad => ?_, .escape h⟩
  cases hbad with
  | here hfaulty => exact absurd hfaulty (h e)
  | plain hslash => exact absurd rfl hslash
  | escape _ hrest => exact hrest

/-- A body with a bad escape has it behind well-escaped text. -/
theorem BadEscape.split (h : BadEscape body e) :
    ∃ front rest, body = front ++ '\\' :: rest ∧ WellEscaped front ∧ Faulty rest e := by
  induction h with
  | here hfaulty => exact ⟨[], _, rfl, .nil, hfaulty⟩
  | plain hc _ ih =>
    obtain ⟨front, rest, rfl, hfront, hfaulty⟩ := ih
    exact ⟨_ :: front, rest, rfl, .plain hc hfront, hfaulty⟩
  | @escape c _ _ _ _ ih =>
    obtain ⟨front, rest, rfl, hfront, hfaulty⟩ := ih
    exact ⟨'\\' :: c :: front, rest, rfl, .escape c hfront, hfaulty⟩

/-- Characters that are no backslashes are passed over. -/
theorem wellEscaped_drop_iff {n : Nat} (h : '\\' ∉ rest.take n) :
    WellEscaped (rest.drop n) ↔ WellEscaped rest := by
  induction n generalizing rest with
  | zero => rfl
  | succ n ih =>
    cases rest with
    | nil => rfl
    | cons c rest =>
      rw [List.take_succ_cons, List.mem_cons, not_or] at h
      rw [List.drop_succ_cons, ih h.2, wellEscaped_cons_iff (Ne.symm h.1)]

theorem badEscape_drop_iff {n : Nat} (h : '\\' ∉ rest.take n) :
    BadEscape (rest.drop n) e ↔ BadEscape rest e := by
  induction n generalizing rest with
  | zero => rfl
  | succ n ih =>
    cases rest with
    | nil => rfl
    | cons c rest =>
      rw [List.take_succ_cons, List.mem_cons, not_or] at h
      rw [List.drop_succ_cons, ih h.2, badEscape_cons_iff (Ne.symm h.1)]

/-! ### What a body denotes -/

theorem digit?_isSome_iff (c : Char) : (Decimal.digit? 16 c).isSome = true ↔ c ∈ hexDigits := by
  by_cases hc : c.toNat < 128
  · have hall : ∀ n < 128, ((Decimal.digit? 16 (Char.ofNat n)).isSome = true ↔
        Char.ofNat n ∈ hexDigits) := by decide +kernel
    have hdigit := hall c.toNat hc
    rwa [Char.ofNat_toNat] at hdigit
  · have hall : ∀ d ∈ hexDigits, d.toNat < 128 := by decide
    refine iff_of_false (fun hsome => ?_) fun hmem => hc (hall c hmem)
    have hle {d : Char} (hd : d.toNat < 128) : ¬ c ≤ d := fun h => by
      have : c.toNat ≤ d.toNat := h
      omega
    have hdigit : c.isDigit = false := by
      rw [Bool.eq_false_iff]
      intro h
      exact hle (d := '9') (by decide) (of_decide_eq_true (Bool.and_eq_true_iff.1 h).2)
    simp [Decimal.digit?, hdigit, hle (d := 'f') (by decide), hle (d := 'F') (by decide)] at hsome

theorem naturalFrom?_isSome_iff (read : Nat) (text : List Char) :
    (Decimal.naturalFrom? 16 read text).isSome = true ↔ ∀ c ∈ text, c ∈ hexDigits := by
  induction text generalizing read with
  | nil => simp [Decimal.naturalFrom?]
  | cons c text ih =>
    rw [Decimal.naturalFrom?, List.forall_mem_cons, ← digit?_isSome_iff c]
    cases Decimal.digit? 16 c with
    | none => simp
    | some d => simpa using ih _

theorem character_eq_error_iff {value : Nat} :
    character value = .error e ↔ ¬ value.isValidChar ∧ e = .noCharacter value := by
  unfold character
  split
  · next hvalid => simp [hvalid]
  · next hvalid => simp [hvalid, eq_comm]

/-- The ways in which an escape with a certain letter can be faulty. -/
theorem faulty_iff {letter : Char} {n : Nat} (hn : hexEscapeDigits? letter = some n) :
    Faulty (letter :: rest) e ↔
      (¬ (n ≤ rest.length ∧ ∀ c ∈ rest.take n, c ∈ hexDigits) ∧ e = .truncatedEscape n) ∨
      ∃ value, n ≤ rest.length ∧ Decimal.naturalFrom? 16 0 (rest.take n) = some value ∧
        ¬ value.isValidChar ∧ e = .noCharacter value := by
  constructor
  · intro h
    cases h with
    | truncated hm hfew =>
      obtain rfl := Option.some.inj (hn.symm.trans hm)
      exact .inl ⟨hfew, rfl⟩
    | noCharacter hm hlength hvalue hvalid =>
      obtain rfl := Option.some.inj (hn.symm.trans hm)
      exact .inr ⟨_, hlength, hvalue, hvalid, rfl⟩
  · rintro (⟨hfew, rfl⟩ | ⟨value, hlength, hvalue, hvalid, rfl⟩)
    · exact .truncated hn hfew
    · exact .noCharacter hn hlength hvalue hvalid

/-- A hexadecimal escape fails exactly if it is faulty. -/
theorem hexEscape_eq_error_iff {letter : Char} {n : Nat} (hn : hexEscapeDigits? letter = some n) :
    hexEscape n rest = .error e ↔ Faulty (letter :: rest) e := by
  have hsome := naturalFrom?_isSome_iff 0 (rest.take n)
  have hlength : (rest.take n).length = n ↔ n ≤ rest.length := by
    rw [List.length_take]
    omega
  rw [faulty_iff hn, hexEscape, ← hsome]
  simp only [hlength]
  cases hvalue : Decimal.naturalFrom? 16 0 (rest.take n) with
  | none => simp [eq_comm]
  | some value =>
    by_cases hle : n ≤ rest.length
    · simp [hle, character_eq_error_iff]
    · simp [hle, eq_comm]

theorem not_faulty {c : Char} (h : hexEscapeDigits? c = none) (other : LiteralError) :
    ¬ Faulty (c :: rest) other := by
  rintro (⟨hn, -⟩ | ⟨hn, -⟩)
  · simp [h] at hn
  · simp [h] at hn

theorem hexEscapeDigits?_of_simpleEscape? {c d : Char} (h : simpleEscape? c = some d) :
    hexEscapeDigits? c = none := by
  have hletter (letter : Char) (hnone : simpleEscape? letter = none) : c ≠ letter := by
    rintro rfl
    simp [hnone] at h
  rw [hexEscapeDigits?, if_neg (hletter 'x' (by decide)), if_neg (hletter 'u' (by decide)),
    if_neg (hletter 'U' (by decide))]

/-- A faulty escape is the first one where it stands. -/
theorem badEscape_iff_faulty {other : LiteralError} (h : Faulty rest other) :
    BadEscape ('\\' :: rest) e ↔ Faulty rest e := by
  refine ⟨fun hbad => ?_, .here⟩
  cases hbad with
  | here hfaulty => exact hfaulty
  | plain hslash => exact absurd rfl hslash
  | escape hnone => exact absurd h (hnone other)

/-- Digits in a base up to sixteen are no backslashes. -/
theorem slash_notMem_digits {base : Nat} {digits : List Char}
    (h : ∀ c ∈ digits, (Decimal.digit? base c).isSome = true) : '\\' ∉ digits := fun hmem => by
  have hnone : Decimal.digit? base '\\' = none := rfl
  simpa [hnone] using h _ hmem

/-- The digits of an escape are no backslashes. -/
theorem slash_notMem_hexEscape {n : Nat} {denoted : Char} (h : hexEscape n rest = .ok denoted) :
    '\\' ∉ rest.take n := by
  unfold hexEscape at h
  split at h
  · next value hvalue =>
    have hdigits := (naturalFrom?_isSome_iff 0 (rest.take n)).1 (by rw [hvalue]; rfl)
    exact fun hmem => absurd (hdigits _ hmem) (by decide)
  · cases h

/-- The further digits of an octal escape are at most two, and no backslashes. -/
theorem octal_more {more : List Char}
    (h : more = (rest.take 2).takeWhile fun d => (Decimal.digit? 8 d).isSome) :
    more.length ≤ 2 ∧ '\\' ∉ rest.take more.length := by
  subst h
  have hprefix := (List.takeWhile_prefix fun d => (Decimal.digit? 8 d).isSome).trans (List.take_prefix 2 rest)
  refine ⟨Nat.le_trans (List.takeWhile_prefix _).length_le (List.length_take_le 2 rest), ?_⟩
  rw [← List.prefix_iff_eq_take.1 hprefix]
  exact slash_notMem_digits fun d hd =>
    List.all_eq_true.1 (List.all_takeWhile (p := fun d => (Decimal.digit? 8 d).isSome)) d hd

/-- A row of digits denotes less than the next power of the base. -/
theorem naturalFrom?_lt {base read value : Nat} {digits : List Char}
    (h : Decimal.naturalFrom? base read digits = some value) :
    value < (read + 1) * base ^ digits.length := by
  induction digits generalizing read with
  | nil =>
    obtain rfl : read = value := by simpa [Decimal.naturalFrom?] using h
    simp
  | cons c digits ih =>
    rw [Decimal.naturalFrom?] at h
    cases hd : Decimal.digit? base c with
    | none => simp [hd] at h
    | some d =>
      rw [hd] at h
      have hless : d < base := by
        have hfilter := (Option.filter_eq_some_iff.1 hd).2
        simpa using hfilter
      have hmore : read * base + d + 1 ≤ (read + 1) * base := by
        rw [Nat.add_mul]
        omega
      calc value < (read * base + d + 1) * base ^ digits.length := ih h
        _ ≤ (read + 1) * base * base ^ digits.length := Nat.mul_le_mul_right _ hmore
        _ = (read + 1) * base ^ (c :: digits).length := by
          rw [List.length_cons, Nat.pow_succ', Nat.mul_assoc]

/-- Three octal digits denote a character. -/
theorem octal_denotes {digits : List Char} (h : digits.length ≤ 3) :
    ∃ denoted, character ((Decimal.natural? 8 digits).getD 0) = .ok denoted := by
  have hless : (Decimal.natural? 8 digits).getD 0 < 512 := by
    cases hvalue : Decimal.natural? 8 digits with
    | none => decide
    | some value =>
      rw [Decimal.natural?] at hvalue
      split at hvalue
      · cases hvalue
      · have hpow : 8 ^ digits.length ≤ 8 ^ 3 := Nat.pow_le_pow_right (by decide) h
        have hbound := naturalFrom?_lt hvalue
        rw [Option.getD_some]
        omega
  have hvalid : ((Decimal.natural? 8 digits).getD 0).isValidChar := .inl (by omega)
  exact ⟨_, by rw [character, if_pos hvalid]⟩

theorem bind_pure_eq_error_iff {ε α β : Type} {result : Except ε α} {f : α → β} {e : ε} :
    (result >>= fun a => pure (f a)) = .error e ↔ result = .error e := by
  rw [bind_eq_error_iff]
  simp [pure, Except.pure]

/-- **A body denotes nothing exactly if it has a bad escape.** -/
theorem cook_eq_error_iff (h : WellEscaped body) : cook body = .error e ↔ BadEscape body e := by
  fun_induction cook body with
  | case1 =>
    refine iff_of_false (by simp) ?_
    rintro ⟨⟩
  | case2 rest ih =>
    rw [badEscape_escape_iff (not_faulty rfl)]
    exact ih (wellEscaped_escape_iff.1 h)
  | case3 rest ih =>
    rw [badEscape_escape_iff (not_faulty rfl), badEscape_cons_iff (by decide)]
    exact ih ((wellEscaped_cons_iff (by decide)).1 (wellEscaped_escape_iff.1 h))
  | case4 rest hfeed ih =>
    rw [badEscape_escape_iff (not_faulty rfl)]
    exact ih (wellEscaped_escape_iff.1 h)
  | case5 => exact absurd h not_wellEscaped_slash
  | case6 c rest h1 h2 h3 denoted hsimple ih =>
    rw [badEscape_escape_iff (not_faulty (hexEscapeDigits?_of_simpleEscape? hsimple)),
      bind_pure_eq_error_iff]
    exact ih (wellEscaped_escape_iff.1 h)
  | case7 c rest h1 h2 h3 hsimple digits hdigits ih =>
    cases hescape : hexEscape digits rest with
    | error other =>
      have hfaulty := (hexEscape_eq_error_iff hdigits).1 hescape
      rw [badEscape_iff_faulty hfaulty, ← hexEscape_eq_error_iff hdigits, hescape, bind_eq_error_iff]
      simp
    | ok denoted =>
      have hsound (other : LiteralError) : ¬ Faulty (c :: rest) other := fun hfaulty => by
        rw [← hexEscape_eq_error_iff hdigits, hescape] at hfaulty
        cases hfaulty
      have hplain : '\\' ∉ rest.take digits := slash_notMem_hexEscape hescape
      have hescaped := (wellEscaped_drop_iff hplain).2 (wellEscaped_escape_iff.1 h)
      rw [badEscape_escape_iff hsound, ← badEscape_drop_iff hplain, ← ih hescaped]
      exact bind_pure_eq_error_iff
  | case8 c rest h1 h2 h3 hsimple hnone hoctal more ih =>
    obtain ⟨htwo, hplain⟩ : more.length ≤ 2 ∧ '\\' ∉ rest.take more.length := octal_more rfl
    have hlength : (c :: more).length ≤ 3 := Nat.succ_le_succ htwo
    obtain ⟨denoted, hdenoted⟩ := octal_denotes hlength
    have hescaped := (wellEscaped_drop_iff hplain).2 (wellEscaped_escape_iff.1 h)
    rw [badEscape_escape_iff (not_faulty hnone), hdenoted, ← badEscape_drop_iff hplain, ← ih hescaped]
    exact bind_pure_eq_error_iff
  | case9 c rest h1 h2 h3 hsimple hnone hoctal ih =>
    rw [badEscape_escape_iff (not_faulty hnone), bind_pure_eq_error_iff]
    exact ih (wellEscaped_escape_iff.1 h)
  | case10 c rest h1 h2 h3 h4 h5 ih =>
    have hc : c ≠ '\\' := ne_backslash (fun d more hc hrest => h5 d more hc hrest) h4
    rw [badEscape_cons_iff hc, bind_pure_eq_error_iff]
    exact ih ((wellEscaped_cons_iff hc).1 h)

end Literal

namespace Scan

open Literal

/-! ### The parts of a literal -/

/-- A body that is closed is well-escaped text in front of the quotes that close it. -/
theorem bodyLength_parts {quote : Char} {triple : Bool} {text : List Char} {n : Nat}
    (h : bodyLength quote triple text = (n, true)) :
    ∃ body, text.take n = body ++ List.replicate (if triple then 3 else 1) quote ∧ WellEscaped body := by
  have hgrow (front : List Char) {back : List Char} {m : Nat}
      (hback : ∃ body, back.take m = body ++ List.replicate (if triple then 3 else 1) quote ∧ WellEscaped body)
      (hescaped : ∀ body, WellEscaped body → WellEscaped (front ++ body)) :
      ∃ body, (front ++ back).take (m + front.length) =
        body ++ List.replicate (if triple then 3 else 1) quote ∧ WellEscaped body := by
    obtain ⟨body, htake, hbody⟩ := hback
    refine ⟨front ++ body, ?_, hescaped body hbody⟩
    rw [Nat.add_comm, List.take_length_add_append, htake, List.append_assoc]
  fun_induction bodyLength quote triple text generalizing n with
  | case1 rest ih =>
    obtain ⟨m, hm, rfl⟩ := grow_eq_closed h
    exact hgrow ['\\', '\r', '\n'] (ih hm) fun body hbody => .escape _ (.plain (by decide) hbody)
  | case2 c rest hcrlf ih =>
    obtain ⟨m, hm, rfl⟩ := grow_eq_closed h
    exact hgrow ['\\', c] (ih hm) fun body hbody => .escape _ hbody
  | case3 => simp at h
  | case4 rest htriple hclose =>
    cases h
    refine ⟨[], ?_, .nil⟩
    rw [List.take_succ_cons, hclose, if_pos htriple]
    rfl
  | case5 rest htriple hclose h1 h2 h3 ih =>
    obtain ⟨m, hm, rfl⟩ := grow_eq_closed h
    exact hgrow [quote] (ih hm) fun body hbody => .plain (ne_backslash h2 h3) hbody
  | case6 rest htriple =>
    cases h
    refine ⟨[], ?_, .nil⟩
    rw [if_neg htriple]
    rfl
  | case7 => simp at h
  | case8 c rest h1 h2 h3 hquote hend ih =>
    obtain ⟨m, hm, rfl⟩ := grow_eq_closed h
    exact hgrow [c] (ih hm) fun body hbody => .plain (ne_backslash h2 h3) hbody
  | case9 => simp at h

/-- **The quotes and the body of a literal:** the quotes that the reader looks for are those that the
literal's text begins with. -/
theorem literalLength_parts {quote : Char} {rest : List Char} {n : Nat} (hquote : isQuote quote = true)
    (h : literalLength (quote :: rest) = (n, true)) :
    ∃ delim body, (quote :: rest).take n = delim ++ (body ++ delim) ∧ IsDelimiter delim ∧ WellEscaped body ∧
      delimiter (delim ++ (body ++ delim)) = delim := by
  rw [literalLength_cons] at h
  split at h
  · next hthree =>
    obtain ⟨m, hm, rfl⟩ := grow_eq_closed h
    obtain ⟨body, htake, hbody⟩ := bodyLength_parts hm
    have hsplit : quote :: rest = [quote, quote, quote] ++ rest.drop 2 := by
      conv_lhs => rw [← List.take_append_drop 2 rest, hthree]
      rfl
    refine ⟨[quote, quote, quote], body, ?_, ⟨quote, hquote, .inr rfl⟩, hbody, ?_⟩
    · have hthrough : ([quote, quote, quote] ++ rest.drop 2).take (m + 3) =
          [quote, quote, quote] ++ (rest.drop 2).take m := rfl
      rw [hsplit, hthrough, htake]
      rfl
    · exact delimiter_of_three hquote _
  · next hone =>
    obtain ⟨m, hm, rfl⟩ := grow_eq_closed h
    obtain ⟨body, htake, hbody⟩ := bodyLength_parts hm
    refine ⟨[quote], body, ?_, ⟨quote, hquote, .inl rfl⟩, hbody, ?_⟩
    · rw [List.take_succ_cons, htake]
      rfl
    · refine delimiter_of_one fun (htwo : (body ++ [quote]).take 2 = [quote, quote]) => hone ?_
      -- what is read of the literal begins as the text does
      have hread : body ++ [quote] = rest.take m := htake.symm
      rw [hread, List.take_take] at htwo
      have hlength := congrArg List.length htwo
      simp only [List.length_take, List.length_cons, List.length_nil] at hlength
      rwa [Nat.min_eq_left (by omega)] at htwo

theorem literalLexeme_parts {text : List Char} {letters n : Nat} {kind : Token.Kind}
    (hquote : (text.drop letters).head?.any isQuote = true)
    (h : literalLexeme text letters = some (kind, n)) :
    ∃ delim body, text.take n = text.take letters ++ (delim ++ (body ++ delim)) ∧ IsDelimiter delim ∧
      WellEscaped body ∧ delimiter (delim ++ (body ++ delim)) = delim := by
  obtain ⟨quote, rest, hrest⟩ : ∃ quote rest, text.drop letters = quote :: rest := by
    cases hdrop : text.drop letters with
    | nil => simp [hdrop] at hquote
    | cons quote rest => exact ⟨quote, rest, rfl⟩
  have hisQuote : isQuote quote = true := by simpa [hrest] using hquote
  unfold literalLexeme at h
  simp only [hrest] at h
  split at h
  · next hclosed =>
    obtain ⟨-, rfl⟩ := Prod.mk.inj (Option.some.inj h)
    obtain ⟨delim, body, htake, hdelim, hbody, hparts⟩ :=
      literalLength_parts hisQuote (Prod.ext rfl hclosed)
    refine ⟨delim, body, ?_, hdelim, hbody, hparts⟩
    rw [List.take_add, hrest, htake]
  · cases h

/-- No letter of a literal is a quote. -/
theorem isQuote_of_isLiteralPrefix {letters : List Char} (h : isLiteralPrefix letters = true) :
    ∀ c ∈ letters, isQuote c = false := by
  have hall : ∀ word ∈ [['r'], ['u'], ['b'], ['f'], ['b', 'r'], ['r', 'b'], ['f', 'r'], ['r', 'f']],
      ∀ d ∈ word, isQuote d = false := by decide
  intro c hc
  have hlower : isQuote c.toLower = false :=
    hall _ (of_decide_eq_true h) _ (List.mem_map_of_mem hc)
  rw [Bool.eq_false_iff]
  intro hquote
  rw [isQuote, Bool.or_eq_true, beq_iff_eq, beq_iff_eq] at hquote
  rcases hquote with rfl | rfl
  · exact absurd hlower (by decide)
  · exact absurd hlower (by decide)

theorem lexeme_string_parts {text : List Char} {n : Nat} (h : lexeme text = some (.string, n)) :
    ∃ letters delim body, text.take n = letters ++ (delim ++ (body ++ delim)) ∧
      (letters = [] ∨ isLiteralPrefix letters = true) ∧ IsDelimiter delim ∧ WellEscaped body ∧
      delimiter (delim ++ (body ++ delim)) = delim := by
  cases text with
  | nil => cases h
  | cons c text =>
    rcases lexeme_cases h with ⟨-, hk, -⟩ | ⟨-, hk, -⟩ | ⟨hc, hliteral⟩ | ⟨-, -, -, hname⟩ | ⟨-, -, -, hk, -⟩
    · cases hk
    · cases hk
    · obtain ⟨delim, body, htake, hparts⟩ := literalLexeme_parts (by simpa using hc) hliteral
      exact ⟨[], delim, body, htake, .inl rfl, hparts⟩
    · unfold nameLexeme at hname
      simp only at hname
      split at hname
      · next hletters =>
        rw [Bool.and_eq_true] at hletters
        obtain ⟨hquote, hprefix⟩ := hletters
        rw [List.take_one] at hquote
        obtain ⟨delim, body, htake, hparts⟩ := literalLexeme_parts (by
          generalize List.head? _ = first at hquote ⊢
          cases first with
          | none => simp at hquote
          | some quote => simpa using hquote) hname
        exact ⟨_, delim, body, htake, .inr hprefix, hparts⟩
      · cases hname
    · cases hk

end Scan

namespace Lexer

open Scan Literal

/-- **A literal that is read denotes a text,** unless an escape in it is at fault. Its text is made of its
letters and of its body between quotes. With an `r` among the letters, it denotes its body; otherwise it
denotes nothing exactly if a hexadecimal escape of the body has too few digits or denotes no character. -/
theorem literal_denotes {lx rest : Lexer} {t : Token} (h : lx.next = (.ok t, rest))
    (hk : t.kind = .string) :
    ∃ letters delim body, t.text.toList = letters ++ (delim ++ (body ++ delim)) ∧
      (letters = [] ∨ isLiteralPrefix letters = true) ∧ IsDelimiter delim ∧ WellEscaped body ∧
      ('r' ∈ letters.map Char.toLower → unquote t.text = .ok (String.ofList body)) ∧
      ('r' ∉ letters.map Char.toLower → (∀ e, unquote t.text = .error e ↔ BadEscape body e) ∧
        ((∀ front letter back, body = front ++ '\\' :: letter :: back → WellEscaped front →
          hexEscapeDigits? letter = none) → ∃ text, unquote t.text = .ok text)) := by
  obtain ⟨-, -, hlexeme, -⟩ := next_of_word h (by rw [hk]; rfl)
  rw [hk] at hlexeme
  obtain ⟨letters, delim, body, htext, hletters, hdelim, hbody, hparts⟩ := lexeme_string_parts hlexeme
  rw [List.take_left] at htext
  have hplain : ∀ c ∈ letters, isQuote c = false := by
    rcases hletters with rfl | hprefix
    · simp
    · exact isQuote_of_isLiteralPrefix hprefix
  have hdenotes : unquote t.text =
      (if 'r' ∈ letters.map Char.toLower then .ok body else cook body).map String.ofList := by
    rw [unquote, htext, unquoteChars_eq letters hplain hdelim hparts]
  refine ⟨letters, delim, body, htext, hletters, hdelim, hbody, fun hraw => ?_, fun hcooked => ?_⟩
  · rw [hdenotes, if_pos hraw]
    rfl
  · rw [if_neg hcooked] at hdenotes
    have herror (e : LiteralError) : unquote t.text = .error e ↔ BadEscape body e := by
      rw [← cook_eq_error_iff hbody, hdenotes]
      cases cook body <;> simp [Except.map]
    refine ⟨herror, fun hnone => ?_⟩
    cases hresult : unquote t.text with
    | ok text => exact ⟨text, rfl⟩
    | error e =>
      obtain ⟨front, rest, hsplit, hfront, hfaulty⟩ := ((herror e).1 hresult).split
      cases hfaulty with
      | truncated hn => simp [hnone _ _ _ hsplit hfront] at hn
      | noCharacter hn => simp [hnone _ _ _ hsplit hfront] at hn

/-- A literal with a backslash that is escaped, and an escape that the closing quote cuts short. -/
def shortSource : String := "u'\\\\x\\x4'"

theorem shortSource_denotes_nothing :
    ∃ t rest letters delim body, (ofSource shortSource).next = (.ok t, rest) ∧ t.kind = .string ∧
      t.text.toList = letters ++ (delim ++ (body ++ delim)) ∧ 'r' ∉ letters.map Char.toLower ∧
      unquote t.text = .error (.truncatedEscape 2) ∧ BadEscape body (.truncatedEscape 2) := by
  let t : Token := ⟨.string, shortSource, ⟨0, 1, 0⟩, ⟨9, 1, 9⟩, shortSource⟩
  have hnext : (ofSource shortSource).next = (.ok t, (ofSource shortSource).next.2) :=
    Prod.ext (by decide +kernel) rfl
  obtain ⟨letters, delim, body, htext, -, -, -, -, hcooked⟩ := literal_denotes hnext rfl
  have hletters : 'r' ∉ letters.map Char.toLower := fun hmem => by
    obtain ⟨c, hc, hlower⟩ := List.mem_map.1 hmem
    have hall : ∀ c ∈ t.text.toList, c.toLower ≠ 'r' := by decide
    exact hall c (by rw [htext]; exact List.mem_append_left _ hc) hlower
  have herror : unquote t.text = .error (.truncatedEscape 2) := by decide +kernel
  exact ⟨t, _, letters, delim, body, hnext, rfl, htext, hletters, herror,
    ((hcooked hletters).1 _).1 herror⟩

end Lexer

end Quasiquote
