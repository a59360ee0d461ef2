import Quasiquote.Proofs.Basic
import Quasiquote.Proofs.Source.Step

/-!
# Where a lexeme ends

What stands behind a lexeme can change it: an identifier goes on with letters, an operator of two
characters is given up before a character of several bytes. This file says when it does not.

## Main Definitions

* `Scan.Closes` — the body of a literal that is closed behind it
* `Scan.Clings` — a lexeme that changes when a certain character follows it
* `Scan.Alike` — two texts that agree up to a site in the one and an identifier in the other
* `Scan.Follows` — what may stand behind a lexeme, and what may stand there in its place

## Main Statements

* `Scan.lexeme_length` — a lexeme is a stretch of text that is not empty
* `Scan.lexeme_append` — a lexeme stays what it is when the text behind it is replaced
-/

namespace Quasiquote.Scan

/-! ### Numbers -/

/-- The signs of exponents. -/
def isSign (c : Char) : Bool := c == '+' || c == '-'

/-- Whether a number goes on with this character. -/
def isNumberPart (c : Char) : Bool := c.isAlphanum || c == '_' || c == '.'

@[simp] theorem numberTail_nil (hexadecimal : Bool) : numberTail hexadecimal [] = 0 := rfl

theorem numberTail_cons_cons (hexadecimal : Bool) (c d : Char) (rest : List Char) :
    numberTail hexadecimal (c :: d :: rest) =
      if (c == 'e' || c == 'E') && isSign d && !hexadecimal then numberTail hexadecimal rest + 2
      else if isNumberPart c then numberTail hexadecimal (d :: rest) + 1
      else 0 := rfl

theorem numberTail_singleton (hexadecimal : Bool) (c : Char) :
    numberTail hexadecimal [c] = if isNumberPart c then 1 else 0 := rfl

theorem numberTail_eq_zero {c : Char} (h : isNumberPart c = false) (hexadecimal : Bool)
    (rest : List Char) : numberTail hexadecimal (c :: rest) = 0 := by
  have hexponent : (c == 'e' || c == 'E') = false := by
    rw [Bool.eq_false_iff]
    intro hc
    rw [Bool.or_eq_true, beq_iff_eq, beq_iff_eq] at hc
    rcases hc with rfl | rfl <;> revert h <;> decide
  cases rest with
  | nil => simp [numberTail_singleton, h]
  | cons d rest => simp [numberTail_cons_cons, hexponent, h]

theorem numberTail_pos {c : Char} (h : isNumberPart c = true) (hexadecimal : Bool)
    (rest : List Char) : 0 < numberTail hexadecimal (c :: rest) := by
  cases rest with
  | nil => simp [numberTail_singleton, h]
  | cons d rest =>
    rw [numberTail_cons_cons]
    split
    · omega
    · simp

theorem numberTail_le (hexadecimal : Bool) (text : List Char) :
    numberTail hexadecimal text ≤ text.length := by
  fun_induction numberTail hexadecimal text <;> simp_all

/-- No part of a number is a sign. -/
theorem not_sign_of_isNumberPart {c : Char} (h : isNumberPart c = true) : isSign c = false := by
  rw [Bool.eq_false_iff]
  intro hsign
  simp only [isSign, Bool.or_eq_true, beq_iff_eq] at hsign
  rcases hsign with rfl | rfl <;> revert h <;> decide

/-- A number goes on with a word of its parts in front of anything but a sign. -/
theorem numberTail_word (hexadecimal : Bool) {word rest : List Char}
    (hword : ∀ c ∈ word, isNumberPart c = true) (hrest : ∀ d ∈ rest.head?, isSign d = false) :
    numberTail hexadecimal (word ++ rest) = word.length + numberTail hexadecimal rest := by
  induction word with
  | nil => simp
  | cons c word ih =>
    have hc : isNumberPart c = true := hword c List.mem_cons_self
    have htail := ih fun d hd => hword d (List.mem_cons_of_mem c hd)
    cases hnext : word ++ rest with
    | nil =>
      rw [List.append_eq_nil_iff] at hnext
      rw [hnext.1, hnext.2]
      simp [numberTail_singleton, hc]
    | cons d more =>
      have hsign : isSign d = false := by
        cases word with
        | nil => exact hrest d (by rw [List.nil_append] at hnext; simp [hnext])
        | cons e word =>
          rw [List.cons_append] at hnext
          injection hnext with he
          exact not_sign_of_isNumberPart (hword d (by simp [he]))
      rw [List.cons_append, hnext, numberTail_cons_cons, hsign, Bool.and_false, Bool.false_and,
        if_neg (by simp), if_pos hc, ← hnext, htail, List.length_cons]
      omega

/-- A number that ends before `s` is the beginning of one before any other text, unless that text
begins with the sign of an exponent. -/
theorem numberTail_append (hexadecimal : Bool) {s r : List Char}
    (hr : ∀ c ∈ r.head?, isSign c = true → s.head? = some c) :
    ∀ {x : List Char}, numberTail hexadecimal (x ++ s) = x.length →
      numberTail hexadecimal (x ++ r) = x.length + numberTail hexadecimal r
  | [], _ => by simp
  | [c], h => by
    have hc : isNumberPart c = true := by
      by_contra hpart
      simp [numberTail_eq_zero (by simpa using hpart)] at h
    cases r with
    | nil => simp [numberTail_singleton, hc]
    | cons d r =>
      -- a sign that belongs to an exponent would stand in `s` as well
      have hpair : ((c == 'e' || c == 'E') && isSign d && !hexadecimal) = false := by
        rw [Bool.eq_false_iff]
        intro hpair
        simp only [Bool.and_eq_true] at hpair
        cases s with
        | nil => simpa using hr d rfl hpair.1.2
        | cons e s =>
          have hsame : e = d := by simpa using hr d rfl hpair.1.2
          subst hsame
          rw [List.singleton_append, numberTail_cons_cons, if_pos (by simpa using hpair)] at h
          simp at h
      rw [List.singleton_append, numberTail_cons_cons, hpair, if_neg (by simp), if_pos hc]
      simp [Nat.add_comm]
  | c :: d :: x, h => by
    simp only [List.cons_append, numberTail_cons_cons] at h ⊢
    split at h
    · next hpair =>
      rw [if_pos hpair, numberTail_append hexadecimal hr (x := x) (by simpa using h)]
      simp
      omega
    split at h
    · next hpair hc =>
      have htail := numberTail_append hexadecimal hr (x := d :: x) (by simpa using h)
      rw [if_neg hpair, if_pos hc, ← List.cons_append, htail]
      simp
      omega
    · simp at h

theorem isHexadecimal_cons_cons (c d : Char) (rest more : List Char) :
    isHexadecimal (c :: d :: rest) = isHexadecimal (c :: d :: more) := by
  unfold isHexadecimal
  split <;> split <;> simp_all

/-- Whether a number is hexadecimal matters for the rest of it, but not for its first digits. -/
theorem numberLength_append {s r x : List Char} (hx : x ≠ [])
    (hr : ∀ c ∈ r.head?, isSign c = true → s.head? = some c)
    (h : numberLength (x ++ s) = x.length) :
    ∃ hexadecimal, numberLength (x ++ r) = x.length + numberTail hexadecimal r := by
  unfold numberLength at h ⊢
  match x with
  | c :: d :: x =>
    refine ⟨_, numberTail_append _ hr ?_⟩
    rwa [List.cons_append, List.cons_append, isHexadecimal_cons_cons c d _ (x ++ s)]
  | [c] =>
    by_cases hsame : isHexadecimal ([c] ++ r) = isHexadecimal ([c] ++ s)
    · rw [hsame]
      exact ⟨_, numberTail_append _ hr h⟩
    · -- only behind a zero does the next character decide, and a zero is no exponent
      have hzero : c = '0' := by
        by_contra hc
        apply hsame
        have hnot (rest : List Char) : isHexadecimal (c :: rest) = false := by
          unfold isHexadecimal
          split <;> simp_all
        rw [List.singleton_append, List.singleton_append, hnot, hnot]
      subst hzero
      refine ⟨isHexadecimal (['0'] ++ r), ?_⟩
      cases r with
      | nil => rfl
      | cons d r =>
        rw [List.singleton_append, numberTail_cons_cons, if_neg (by simp), if_pos (by decide)]
        exact Nat.add_comm _ _

/-! ### String literals -/

theorem bodyLength_crlf (quote : Char) (triple : Bool) (rest : List Char) :
    bodyLength quote triple ('\\' :: '\r' :: '\n' :: rest) =
      bodyLength.grow 3 (bodyLength quote triple rest) := by
  rw [bodyLength]

theorem bodyLength_escape (quote : Char) (triple : Bool) {c : Char} {rest : List Char}
    (h : c = '\r' → rest.head? ≠ some '\n') :
    bodyLength quote triple ('\\' :: c :: rest) =
      bodyLength.grow 2 (bodyLength quote triple rest) := by
  rw [bodyLength]
  rintro more hc rfl
  exact h hc rfl

theorem bodyLength_cons (quote : Char) (triple : Bool) {c : Char} (hc : c ≠ '\\')
    (rest : List Char) :
    bodyLength quote triple (c :: rest) =
      if c = quote then
        if triple then
          if rest.take 2 = [quote, quote] then (3, true)
          else bodyLength.grow 1 (bodyLength quote triple rest)
        else (1, true)
      else if endsLine c && !triple then (0, false)
      else bodyLength.grow 1 (bodyLength quote triple rest) := by
  rw [bodyLength]
  · exact fun _ h _ => hc h
  · exact fun _ _ h _ => hc h
  · exact fun h _ => hc h

theorem grow_eq_closed {k n : Nat} {answer : Nat × Bool}
    (h : bodyLength.grow k answer = (n, true)) : ∃ m, answer = (m, true) ∧ n = m + k := by
  simp only [bodyLength.grow, Prod.mk.injEq] at h
  exact ⟨answer.1, Prod.ext rfl h.2, h.1.symm⟩

/-- A text that is cut off and continued is the same as far as it goes. -/
theorem take_take_append {m k : Nat} {text : List Char} (hmk : m ≤ k) (hk : k ≤ text.length)
    (r : List Char) : (text.take k ++ r).take m = text.take m := by
  rw [List.take_append_of_le_length (by simp; omega), List.take_take, Nat.min_eq_left hmk]

/-- A body that is closed after `n` characters, whatever text follows it. -/
structure Closes (quote : Char) (triple : Bool) (text : List Char) (n : Nat) : Prop where
  pos : 0 < n
  three : triple = true → 3 ≤ n
  le : n ≤ text.length
  closed : ∀ r, bodyLength quote triple (text.take n ++ r) = (n, true)

/-- Characters before a body that are read one by one belong to it. -/
theorem Closes.extend {quote : Char} {triple : Bool} {rest : List Char} {m : Nat}
    (h : Closes quote triple rest m) (x : List Char)
    (hx : ∀ r, bodyLength quote triple (x ++ (rest.take m ++ r)) =
      bodyLength.grow x.length (bodyLength quote triple (rest.take m ++ r))) :
    Closes quote triple (x ++ rest) (m + x.length) where
  pos := Nat.add_pos_left h.pos _
  three htriple := Nat.le_add_right_of_le (h.three htriple)
  le := by
    have := h.le
    rw [List.length_append]
    omega
  closed r := by
    rw [Nat.add_comm, List.take_length_add_append, List.append_assoc, hx, h.closed]
    rw [bodyLength.grow, Nat.add_comm]

/-- What is neither an escape nor a backslash at the end of the text is no backslash. -/
theorem ne_backslash {c : Char} {rest : List Char}
    (hescape : ∀ d more, c = '\\' → rest = d :: more → False)
    (hlast : c = '\\' → rest = [] → False) : c ≠ '\\' := by
  intro hc
  cases rest with
  | nil => exact hlast hc rfl
  | cons d more => exact hescape d more hc rfl

/-- A closed body is closed whatever text follows it. -/
theorem bodyLength_append {quote : Char} {triple : Bool} {text : List Char} {n : Nat}
    (h : bodyLength quote triple text = (n, true)) : Closes quote triple text n := by
  fun_induction bodyLength quote triple text generalizing n with
  | case1 rest ih =>
    obtain ⟨m, hm, rfl⟩ := grow_eq_closed h
    exact (ih hm).extend ['\\', '\r', '\n'] fun r => bodyLength_crlf _ _ _
  | case2 c rest hcrlf ih =>
    obtain ⟨m, hm, rfl⟩ := grow_eq_closed h
    have hrest := ih hm
    refine hrest.extend ['\\', c] fun r => bodyLength_escape _ _ fun hc hhead => ?_
    -- the character behind an escaped carriage return is the same in both texts
    have hheads := congrArg List.head? (take_take_append hrest.pos hrest.le r)
    rw [List.head?_take, List.head?_take, if_neg (by simp), if_neg (by simp)] at hheads
    have hsame : rest.head? = some '\n' := hheads.symm.trans hhead
    obtain ⟨more, rfl⟩ := List.head?_eq_some_iff.1 hsame
    exact hcrlf more hc rfl
  | case3 => simp at h
  | case4 rest htriple hclose h1 h2 h3 =>
    cases h
    have hlen : 2 ≤ rest.length := by
      have := congrArg List.length hclose
      simp at this
      omega
    refine ⟨by omega, fun _ => Nat.le_refl _, by simp; omega, fun r => ?_⟩
    rw [List.take_succ_cons, List.cons_append, bodyLength_cons _ _ (ne_backslash h2 h3), if_pos rfl,
      if_pos htriple, take_take_append (Nat.le_refl _) hlen, if_pos hclose]
  | case5 rest htriple hclose h1 h2 h3 ih =>
    obtain ⟨m, hm, rfl⟩ := grow_eq_closed h
    have hrest := ih hm
    have hm3 := hrest.three htriple
    refine hrest.extend [quote] fun r => ?_
    rw [List.singleton_append, bodyLength_cons _ _ (ne_backslash h2 h3), if_pos rfl, if_pos htriple,
      take_take_append (by omega) hrest.le, if_neg hclose]
    rfl
  | case6 rest htriple h1 h2 h3 =>
    cases h
    refine ⟨by omega, fun h => absurd h htriple, by simp, fun r => ?_⟩
    rw [List.take_succ_cons, List.cons_append, bodyLength_cons _ _ (ne_backslash h2 h3), if_pos rfl,
      if_neg htriple]
  | case7 => simp at h
  | case8 c rest h1 h2 h3 hquote hend ih =>
    obtain ⟨m, hm, rfl⟩ := grow_eq_closed h
    refine (ih hm).extend [c] fun r => ?_
    rw [List.singleton_append, bodyLength_cons _ _ (ne_backslash h2 h3), if_neg hquote, if_neg hend]
    rfl
  | case9 => simp at h

theorem literalLength_cons (quote : Char) (rest : List Char) :
    literalLength (quote :: rest) =
      if rest.take 2 = [quote, quote] then
        bodyLength.grow 3 (bodyLength quote true (rest.drop 2))
      else bodyLength.grow 1 (bodyLength quote false rest) := rfl

theorem literalLength_le {text : List Char} {n : Nat} (h : literalLength text = (n, true)) :
    1 < n ∧ n ≤ text.length := by
  cases text with
  | nil => simp [literalLength] at h
  | cons quote rest =>
    rw [literalLength_cons] at h
    split at h
    · obtain ⟨m, hm, rfl⟩ := grow_eq_closed h
      obtain ⟨hpos, hthree, hle, -⟩ := bodyLength_append hm
      have := hthree rfl
      simp only [List.length_drop] at hle
      simp only [List.length_cons]
      omega
    · obtain ⟨m, hm, rfl⟩ := grow_eq_closed h
      obtain ⟨hpos, -, hle, -⟩ := bodyLength_append hm
      simp only [List.length_cons]
      omega

/-- Two quotes that do not stand before one text do not stand before another, unless that text
adds the second of them. -/
theorem take_two_append {quote : Char} {y s r : List Char} (hy : y ≠ [])
    (hr : r.head? = some quote → s.head? = some quote) (h : (y ++ s).take 2 ≠ [quote, quote]) :
    (y ++ r).take 2 ≠ [quote, quote] := by
  intro hquotes
  apply h
  match y with
  | [] => exact absurd rfl hy
  | [c] =>
    cases r with
    | nil => simp at hquotes
    | cons d r =>
      simp only [List.singleton_append, List.take_succ_cons, List.take_zero, List.cons.injEq,
        and_true] at hquotes
      obtain ⟨rfl, rfl⟩ := hquotes
      obtain ⟨s, rfl⟩ := List.head?_eq_some_iff.1 (hr rfl)
      rfl
  | c :: d :: y => simpa using hquotes

/-- A closed literal is closed whatever text follows it, unless that text could turn two quotes
into three. -/
theorem literalLength_append {quote : Char} {y s r : List Char}
    (hr : r.head? = some quote → s.head? = some quote)
    (h : literalLength (quote :: y ++ s) = (y.length + 1, true)) :
    literalLength (quote :: y ++ r) = (y.length + 1, true) := by
  rw [List.cons_append, literalLength_cons] at h ⊢
  split at h
  · next htriple =>
    obtain ⟨m, hm, hlen⟩ := grow_eq_closed h
    obtain ⟨hpos, hthree, hle, hall⟩ := bodyLength_append hm
    -- the quotes that close the body are three, so that `y` has the opening ones too
    have hm3 := hthree rfl
    have hcut : (y ++ r).take 2 = [quote, quote] := by
      rw [List.take_append_of_le_length (by omega)] at htriple ⊢
      exact htriple
    have hbody : (y ++ s).drop 2 = y.drop 2 ++ s := List.drop_append_of_le_length (by omega)
    have hall := hall r
    rw [hbody, List.take_append_of_le_length (by simp; omega), List.take_of_length_le (by simp; omega)]
      at hall
    rw [if_pos hcut, List.drop_append_of_le_length (by omega), hall]
    simp only [bodyLength.grow, Prod.mk.injEq, and_true]
    omega
  · next hsingle =>
    obtain ⟨m, hm, hlen⟩ := grow_eq_closed h
    obtain ⟨hpos, -, hle, hall⟩ := bodyLength_append hm
    have hym : m = y.length := by omega
    subst hym
    have hcut : (y ++ r).take 2 ≠ [quote, quote] :=
      take_two_append (List.ne_nil_of_length_pos hpos) hr hsingle
    have hall := hall r
    rw [List.take_append_of_le_length (Nat.le_refl _), List.take_length] at hall
    rw [if_neg hcut, hall]
    rfl

/-- The same, for a literal with letters before its quotes. -/
theorem literalLexeme_append {letters : Nat} {x s r : List Char} {kind : Token.Kind}
    (hletters : letters < x.length)
    (hquote : ((x ++ s).drop letters).head?.any isQuote = true)
    (hr : ∀ c ∈ r.head?, isQuote c = true → s.head? = some c)
    (h : literalLexeme (x ++ s) letters = some (kind, x.length)) :
    literalLexeme (x ++ r) letters = some (kind, x.length) := by
  unfold literalLexeme at h ⊢
  rw [List.drop_append_of_le_length (by omega)] at h hquote ⊢
  cases hy : x.drop letters with
  | nil => simp at hy; omega
  | cons quote y =>
    have hlen : x.length = letters + (y.length + 1) := by
      have := congrArg List.length hy
      simp at this
      omega
    rw [hy] at h hquote
    simp only at h ⊢
    split at h
    · next hclosed =>
      simp only [Option.some.injEq, Prod.mk.injEq] at h
      have hfound : literalLength (quote :: y ++ s) = (y.length + 1, true) :=
        Prod.ext (by omega) hclosed
      have hsame := literalLength_append (r := r) (fun hq => hr quote hq (by simpa using hquote))
        hfound
      rw [hsame]
      simp [h.1, hlen]
    · simp at h

/-! ### Lexemes are stretches of text -/

theorem operatorLength_le (text : List Char) : operatorLength text ≤ text.length := by
  rw [operatorLength_eq]
  split
  · next hmem =>
    have := (operators3_ascii _ hmem).1
    simp at this
    omega
  split
  · next hmem =>
    have := (operators2_ascii _ hmem.1).1
    simp at this
    omega
  split
  · cases text with
    | nil => simp_all
    | cons c rest => simp
  · omega

/-- An operator is made of the characters of operators. -/
theorem operator_parts (text : List Char) :
    operatorLength text ≤ text.length ∧ ∀ c ∈ text.take (operatorLength text), c ∈ operators1 := by
  refine ⟨operatorLength_le text, ?_⟩
  rw [operatorLength_eq]
  split
  · next hthree => exact operators3_parts _ hthree
  split
  · next htwo => exact operators2_parts _ htwo.1
  split
  · next hone =>
    cases text with
    | nil => simp
    | cons c rest => simpa using hone
  · simp

/-- A number goes on over no line feed. -/
theorem feed_notMem_number (hexadecimal : Bool) (text : List Char) :
    '\n' ∉ text.take (numberTail hexadecimal text) := by
  fun_induction numberTail hexadecimal text with
  | case1 c sign rest hexponent ih =>
    have hc : '\n' ≠ c := by rintro rfl; simp at hexponent
    have hsign : '\n' ≠ sign := by rintro rfl; simp at hexponent
    simp [hc, hsign, ih]
  | case2 c sign rest hexponent hc ih =>
    have hfeed : '\n' ≠ c := by rintro rfl; revert hc; decide
    rw [List.take_succ_cons, List.mem_cons, not_or]
    exact ⟨hfeed, ih⟩
  | case3 => simp
  | case4 c hc =>
    have hfeed : '\n' ≠ c := by rintro rfl; revert hc; decide
    simp [hfeed]
  | case5 => simp
  | case6 => simp

theorem literalLexeme_length {text : List Char} {letters n : Nat} {kind : Token.Kind}
    (h : literalLexeme text letters = some (kind, n)) : letters + 1 < n ∧ n ≤ text.length := by
  simp only [literalLexeme] at h
  split at h
  · next hclosed =>
    simp only [Option.some.injEq, Prod.mk.injEq] at h
    obtain ⟨-, hn⟩ := h
    have hfound : literalLength (text.drop letters) = ((literalLength (text.drop letters)).1, true) :=
      Prod.ext rfl hclosed
    obtain ⟨hpos, hle⟩ := literalLength_le hfound
    simp only [List.length_drop] at hle
    omega
  · simp at h

/-- A lexeme is a stretch of the text that is not empty. -/
theorem lexeme_length {text : List Char} {kind : Token.Kind} {n : Nat}
    (h : lexeme text = some (kind, n)) : 0 < n ∧ n ≤ text.length := by
  cases text with
  | nil => simp at h
  | cons c rest =>
    rcases lexeme_cases h with ⟨-, -, rfl⟩ | ⟨hnumber, -, rfl⟩ | ⟨-, hliteral⟩ |
      ⟨hident, -, -, hname⟩ | ⟨hc, -, -, -, rfl⟩
    · simp
    · exact ⟨numberLength_pos hnumber, numberTail_le _ _⟩
    · have := literalLexeme_length hliteral
      omega
    · unfold nameLexeme at hname
      simp only at hname
      split at hname
      · have := literalLexeme_length hname
        omega
      · simp only [Option.some.injEq, Prod.mk.injEq] at hname
        have hle := (List.takeWhile_sublist isIdentPart (l := c :: rest)).length_le
        simp only [List.takeWhile_cons, isIdentPart, hident, Bool.true_or, if_true,
          List.length_cons] at hname hle ⊢
        omega
    · exact ⟨operatorLength_pos hc rest, operatorLength_le _⟩

/-! ### What follows a lexeme -/

/-- **A lexeme that clings to the character behind it.** An identifier does to any character that
begins an identifier, a number to those of a single byte, an operator of two characters to those of
several. -/
def Clings (kind : Token.Kind) (length : Nat) (d : Char) : Prop :=
  kind = .name ∨ kind = .number ∧ d.utf8Size = 1 ∨
    kind = .operator ∧ length = 2 ∧ d.utf8Size ≠ 1

instance (kind : Token.Kind) (length : Nat) (d : Char) : Decidable (Clings kind length d) :=
  inferInstanceAs (Decidable (kind = .name ∨ kind = .number ∧ d.utf8Size = 1 ∨
    kind = .operator ∧ length = 2 ∧ d.utf8Size ≠ 1))

/-- Two texts that agree up to a place where the one has a site and the other an identifier. -/
inductive Alike : List Char → List Char → Prop
  | nil : Alike [] []
  | cons (c : Char) {s t : List Char} : Alike s t → Alike (c :: s) (c :: t)
  | site {c d : Char} (s t : List Char) : (c = '[' ∨ c = 'w') → isIdentStart d = true →
      Alike (c :: s) (d :: t)

/-- Two texts that are alike, behind a lexeme that clings to neither. -/
inductive Follows (kind : Token.Kind) (length : Nat) : List Char → List Char → Prop
  | nil : Follows kind length [] []
  | cons (c : Char) {s t : List Char} : Alike s t → Follows kind length (c :: s) (c :: t)
  | site {c d : Char} (s t : List Char) : (c = '[' ∨ c = 'w') → isIdentStart d = true →
      ¬ Clings kind length d → Follows kind length (c :: s) (d :: t)

theorem Alike.append {s t : List Char} (h : Alike s t) (x : List Char) :
    Alike (x ++ s) (x ++ t) := by
  induction x with
  | nil => exact h
  | cons c x ih => exact ih.cons c

theorem Alike.refl (s : List Char) : Alike s s := by
  simpa using Alike.nil.append s

theorem Follows.refl (kind : Token.Kind) (length : Nat) (s : List Char) : Follows kind length s s := by
  cases s with
  | nil => exact .nil
  | cons c s => exact .cons c (Alike.refl s)

/-- What can begin no identifier begins both texts or neither. -/
theorem Follows.head {kind : Token.Kind} {length : Nat} {s t : List Char}
    (h : Follows kind length s t) {p : Char → Bool} (hp : ∀ d, isIdentStart d = true → p d = false) :
    ∀ c ∈ t.head?, p c = true → s.head? = some c := by
  intro c hc hpc
  cases h with
  | nil => exact hc
  | cons => exact hc
  | site s t _ hd _ =>
    simp only [List.head?_cons, Option.mem_some_iff] at hc
    subst hc
    simp [hp _ hd] at hpc

theorem not_operator_of_identStart {d : Char} (h : isIdentStart d = true) : d ∉ operators1 := by
  have hnone : ∀ c ∈ operators1, isIdentStart c = false := by decide
  intro hmem
  simp [hnone d hmem] at h

theorem not_quote_of_identStart (d : Char) (h : isIdentStart d = true) : isQuote d = false := by
  rw [Bool.eq_false_iff]
  intro hd
  simp only [isQuote, Bool.or_eq_true, beq_iff_eq] at hd
  rcases hd with rfl | rfl <;> revert h <;> decide

theorem not_sign_of_identPart {d : Char} (h : isIdentPart d = true) : isSign d = false := by
  rw [Bool.eq_false_iff]
  intro hd
  simp only [isSign, Bool.or_eq_true, beq_iff_eq] at hd
  rcases hd with rfl | rfl <;> revert h <;> decide

theorem not_sign_of_identStart (d : Char) (h : isIdentStart d = true) : isSign d = false :=
  not_sign_of_identPart (by rw [isIdentPart, h, Bool.true_or])

theorem not_digit_of_identStart (d : Char) (h : isIdentStart d = true) : d.isDigit = false := by
  rw [Bool.eq_false_iff]
  intro hd
  simp only [isIdentStart, Bool.or_eq_true, decide_eq_true_eq, beq_iff_eq] at h
  rw [Char.isDigit_iff_toNat] at hd
  have hdigit : '9'.toNat = 57 := rfl
  rcases h with (h | rfl) | h
  · have hletter := isAlpha_range h
    omega
  · revert hd
    decide
  · omega

/-- A number goes on with single bytes only. -/
theorem utf8Size_of_isNumberPart {d : Char} (h : isNumberPart d = true) : d.utf8Size = 1 := by
  rw [Char.utf8Size_eq_one_iff, UInt32.le_iff_toNat_le]
  simp only [isNumberPart, Char.isAlphanum, Bool.or_eq_true, beq_iff_eq] at h
  have hvalue : d.val.toNat = d.toNat := rfl
  have hdigit : '9'.toNat = 57 := rfl
  have hbyte : (127 : UInt32).toNat = 127 := rfl
  rcases h with ((h | h) | rfl) | rfl
  · have hletter := isAlpha_range h
    omega
  · rw [Char.isDigit_iff_toNat] at h
    omega
  all_goals decide

theorem startsNumber_cons (c : Char) (rest : List Char) :
    startsNumber (c :: rest) = (c.isDigit || c == '.' && rest.head?.any Char.isDigit) := by
  unfold startsNumber
  split
  · next heq =>
    cases heq
    simp
  · next hpoint heq =>
    cases heq
    have hrest : (c == '.' && rest.head?.any Char.isDigit) = false := by
      rw [Bool.eq_false_iff]
      intro hc
      rw [Bool.and_eq_true, beq_iff_eq] at hc
      obtain ⟨rfl, hd⟩ := hc
      cases rest with
      | nil => simp at hd
      | cons d rest => exact hpoint d rest rfl rfl
    rw [hrest, Bool.or_false]
  · simp_all

/-- Whether a number begins is seen from the text and the character behind it. -/
theorem startsNumber_append (c : Char) (y : List Char) {s t : List Char}
    (h : s.head?.any Char.isDigit = t.head?.any Char.isDigit) :
    startsNumber (c :: y ++ s) = startsNumber (c :: y ++ t) := by
  rw [List.cons_append, List.cons_append, startsNumber_cons, startsNumber_cons]
  cases y with
  | cons d y => rfl
  | nil => rw [List.nil_append, List.nil_append, h]

/-! ### A lexeme before two texts that are alike -/

section

variable {kind : Token.Kind} {s t : List Char}

/-- Whether a number begins does not depend on which of the texts follows. -/
theorem Follows.startsNumber {length : Nat} (h : Follows kind length s t) (c : Char)
    (y : List Char) : startsNumber (c :: y ++ s) = startsNumber (c :: y ++ t) := by
  apply startsNumber_append
  cases h with
  | nil => rfl
  | cons => rfl
  | site s t hc hd _ =>
    -- neither a site nor an identifier begins with a digit
    have hfirst := not_digit_of_identStart _ hd
    rcases hc with rfl | rfl <;> simp [hfirst]

theorem Follows.numberLength {x : List Char} (h : Follows .number x.length s t) (hx : x ≠ [])
    (hlen : numberLength (x ++ s) = x.length) : numberLength (x ++ t) = x.length := by
  obtain ⟨hex, hs⟩ := numberLength_append hx (fun c hc _ => hc) hlen
  obtain ⟨hex', ht⟩ := numberLength_append hx (h.head not_sign_of_identStart) hlen
  rw [ht]
  cases h with
  | nil => simp
  | @cons c s t hst =>
    have hstop : isNumberPart c = false := by
      rw [Bool.eq_false_iff]
      intro hpart
      have hpos := numberTail_pos hpart hex s
      omega
    rw [numberTail_eq_zero hstop, Nat.add_zero]
  | @site c d s t _ hd hcling =>
    have hstop : isNumberPart d = false := by
      rw [Bool.eq_false_iff]
      exact fun hpart => hcling (.inr (.inl ⟨rfl, utf8Size_of_isNumberPart hpart⟩))
    rw [numberTail_eq_zero hstop, Nat.add_zero]

/-- No operator has the first character of an identifier in it. -/
theorem not_operators3_of_identStart {op : List Char} {d : Char} (h : isIdentStart d = true)
    (hd : d ∈ op) : op ∉ operators3 := fun hmem =>
  not_operator_of_identStart h (operators3_parts _ hmem d hd)

theorem not_operators2_of_identStart {op : List Char} {d : Char} (h : isIdentStart d = true)
    (hd : d ∈ op) : op ∉ operators2 := fun hmem =>
  not_operator_of_identStart h (operators2_parts _ hmem d hd)

theorem site_ascii {c : Char} (hc : c = '[' ∨ c = 'w') : c.utf8Size = 1 := by
  rcases hc with rfl | rfl <;> rfl

theorem operatorLength_eq_one_iff (a : Char) (rest : List Char) :
    operatorLength (a :: rest) = 1 ↔
      (a :: rest).take 3 ∉ operators3 ∧
        ¬ ((a :: rest).take 2 ∈ operators2 ∧ ∀ c ∈ rest.tail.head?, c.utf8Size = 1) ∧
        a ∈ operators1 := by
  rw [operatorLength_eq]
  split
  · simp_all
  split
  · simp_all
  · simp_all

theorem operatorLength_eq_two_iff (a b : Char) (rest : List Char) :
    operatorLength (a :: b :: rest) = 2 ↔
      (a :: b :: rest).take 3 ∉ operators3 ∧ [a, b] ∈ operators2 ∧
        ∀ c ∈ rest.head?, c.utf8Size = 1 := by
  rw [operatorLength_eq]
  split
  · simp_all
  split
  · simp_all
  · split <;> simp_all

theorem operatorLength_eq_three_iff (text : List Char) :
    operatorLength text = 3 ↔ text.take 3 ∈ operators3 := by
  rw [operatorLength_eq]
  split
  · simp_all
  split
  · simp_all
  · split <;> simp_all

theorem operatorLength_le_three (text : List Char) : operatorLength text ≤ 3 := by
  rw [operatorLength_eq]
  split
  · omega
  split
  · omega
  · split <;> omega

theorem Follows.operatorLength {x : List Char} (h : Follows .operator x.length s t) (hx : x ≠ [])
    (hlen : operatorLength (x ++ s) = x.length) : operatorLength (x ++ t) = x.length := by
  match x with
  | [a] =>
    rw [List.singleton_append, List.length_singleton, operatorLength_eq_one_iff] at hlen ⊢
    obtain ⟨h3, h2, h1⟩ := hlen
    cases h with
    | nil => exact ⟨h3, h2, h1⟩
    | @cons b s t hst =>
      -- `b` and the character behind it could be the rest of a longer operator
      cases hst with
      | nil => exact ⟨h3, h2, h1⟩
      | cons c => exact ⟨h3, h2, h1⟩
      | @site c d s t hc hd =>
        refine ⟨not_operators3_of_identStart hd (by simp), fun hmem => h2 ⟨hmem.1, ?_⟩, h1⟩
        simpa using site_ascii hc
    | @site c d s t hc hd =>
      refine ⟨not_operators3_of_identStart hd (by simp), fun hmem => ?_, h1⟩
      exact not_operators2_of_identStart hd (by simp) hmem.1
  | [a, b] =>
    rw [List.cons_append, List.singleton_append, List.length_cons, List.length_singleton,
      operatorLength_eq_two_iff] at hlen ⊢
    obtain ⟨h3, h2, h1⟩ := hlen
    cases h with
    | nil => exact ⟨h3, h2, h1⟩
    | cons c => exact ⟨h3, h2, h1⟩
    | @site c d s t hc hd hcling =>
      refine ⟨not_operators3_of_identStart hd (by simp), h2, ?_⟩
      intro e he
      by_contra hsize
      simp only [List.head?_cons, Option.mem_some_iff] at he
      exact hcling (.inr (.inr ⟨rfl, rfl, he ▸ hsize⟩))
  | [a, b, c] =>
    -- nothing behind three characters is looked at
    have hthree : ([a, b, c] : List Char).length = 3 := rfl
    rw [hthree, operatorLength_eq_three_iff] at hlen ⊢
    exact hlen
  | a :: b :: c :: d :: x =>
    have hle := operatorLength_le_three (a :: b :: c :: d :: x ++ s)
    simp only [List.length_cons] at hlen
    omega

/-- A run that ends inside `x` ends there whatever follows. -/
theorem takeWhile_append_of_lt {p : Char → Bool} {x : List Char}
    (h : ((x ++ s).takeWhile p).length < x.length) :
    (x ++ t).takeWhile p = (x ++ s).takeWhile p := by
  rw [List.takeWhile_append] at h ⊢
  rw [List.takeWhile_append]
  split at h
  · rw [List.length_append] at h
    omega
  · next hne => rw [if_neg hne, if_neg hne]

/-- An identifier ends where it did, before the same character. -/
theorem Follows.takeWhile_eq {x : List Char} (h : Follows .name x.length s t)
    (hlen : ((x ++ s).takeWhile isIdentPart).length = x.length) :
    (x ++ s).takeWhile isIdentPart = x ∧ (x ++ t).takeWhile isIdentPart = x ∧
      t.take 1 = s.take 1 := by
  have hall : (x.takeWhile isIdentPart).length = x.length := by
    by_contra hne
    rw [List.takeWhile_append, if_neg hne] at hlen
    exact hne hlen
  have hs : s.takeWhile isIdentPart = [] := by
    rw [List.takeWhile_append, if_pos hall, List.length_append] at hlen
    exact List.length_eq_zero_iff.1 (by omega)
  have ht : t.takeWhile isIdentPart = [] ∧ t.take 1 = s.take 1 := by
    cases h with
    | nil => exact ⟨rfl, rfl⟩
    | cons c =>
      refine ⟨?_, rfl⟩
      rw [List.takeWhile_cons] at hs ⊢
      split at hs
      · simp at hs
      · next hc => rw [if_neg hc]
    -- an identifier clings to every site
    | site s t _ _ hcling => exact absurd (.inl rfl) hcling
  have hname (r : List Char) (hr : r.takeWhile isIdentPart = []) :
      (x ++ r).takeWhile isIdentPart = x := by
    rw [List.takeWhile_append, if_pos hall, hr, List.append_nil]
  exact ⟨hname s hs, hname t ht.1, ht.2⟩

theorem Follows.nameLexeme {x : List Char} (h : Follows kind x.length s t)
    (hlen : nameLexeme (x ++ s) = some (kind, x.length)) :
    nameLexeme (x ++ t) = some (kind, x.length) := by
  unfold Scan.nameLexeme at hlen ⊢
  simp only at hlen ⊢
  split at hlen
  · -- the identifier turns out to be the letters of a literal, so it ends inside `x`
    next hletters =>
    have hlt := (literalLexeme_length hlen).1
    have hsame := takeWhile_append_of_lt (s := s) (t := t) (p := isIdentPart) (x := x) (by omega)
    rw [hsame]
    have hquote : ((x ++ s).drop ((x ++ s).takeWhile isIdentPart).length).head?.any isQuote = true := by
      rw [Bool.and_eq_true] at hletters
      cases hd : (x ++ s).drop ((x ++ s).takeWhile isIdentPart).length <;> simp [hd] at hletters ⊢
      exact hletters.1
    have hcut (r : List Char) : ((x ++ r).drop ((x ++ s).takeWhile isIdentPart).length).take 1 =
        (x.drop ((x ++ s).takeWhile isIdentPart).length).take 1 := by
      rw [List.drop_append_of_le_length (by omega), List.take_append_of_le_length]
      simp only [List.length_drop]
      omega
    rw [hcut, List.take_append_of_le_length (by omega)] at hletters ⊢
    rw [if_pos hletters]
    exact literalLexeme_append (by omega) hquote (h.head not_quote_of_identStart) hlen
  · next hletters =>
    simp only [Option.some.injEq, Prod.mk.injEq] at hlen
    obtain ⟨rfl, hlen⟩ := hlen
    obtain ⟨hs, ht, hsame⟩ := h.takeWhile_eq hlen
    rw [hs] at hletters
    rw [ht]
    simp only [List.drop_left, List.take_left, hsame] at hletters ⊢
    rw [if_neg hletters]

/-- **A lexeme does not depend on the text behind it,** as far as it clings to neither of two texts
that are alike. -/
theorem lexeme_append {x : List Char} (h : Follows kind x.length s t) (hx : x ≠ [])
    (hlen : lexeme (x ++ s) = some (kind, x.length)) :
    lexeme (x ++ t) = some (kind, x.length) := by
  cases x with
  | nil => exact absurd rfl hx
  | cons c y =>
    have hnumber := h.startsNumber c y
    rw [List.cons_append, lexeme_cons] at hlen ⊢
    rw [List.cons_append, List.cons_append] at hnumber
    rw [← hnumber]
    split at hlen
    · next hc => rwa [if_pos hc]
    next hc =>
    rw [if_neg hc]
    split at hlen
    · next hc =>
      rw [if_pos hc]
      simp only [Option.some.injEq, Prod.mk.injEq] at hlen ⊢
      obtain ⟨rfl, hlen⟩ := hlen
      exact ⟨rfl, h.numberLength hx hlen⟩
    next hc =>
    rw [if_neg hc]
    split at hlen
    · next hc =>
      rw [if_pos hc]
      exact literalLexeme_append (x := c :: y) (by simp) (by simpa using hc)
        (h.head not_quote_of_identStart) hlen
    next hc =>
    rw [if_neg hc]
    split at hlen
    · next hc =>
      rw [if_pos hc]
      exact h.nameLexeme hlen
    next hc =>
    rw [if_neg hc]
    unfold operatorLexeme at hlen ⊢
    split at hlen
    · simp at hlen
    · next n hn =>
      simp only [Option.some.injEq, Prod.mk.injEq] at hlen
      obtain ⟨rfl, hlen⟩ := hlen
      have hsame := h.operatorLength hx (hn.trans hlen)
      rw [List.cons_append] at hsame
      rw [hsame]
      rfl

end

end Quasiquote.Scan
