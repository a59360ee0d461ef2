import Mathlib.Tactic.Common
import Quasiquote.Source.Scan

/-!
# Which operator a text begins with

`Scan.operatorLength` looks at a window of three bytes. This file says what that comes to in
characters: an operator of two characters is found unless a character of several bytes follows it.

## Main Definitions

* `Scan.IsLongestOperator` — the longest operator that a text begins with
* `Scan.HidesOperator` — text in which the window hides an operator

## Main Statements

* `Scan.operatorLength_eq` — the length of an operator, without the window
* `Scan.isLongestOperator_iff` — the operator that is found is the longest one unless one is hidden
-/

namespace Quasiquote.Scan

/-! ### Deciding statements about characters -/

-- Without these instances, such statements may be decided by going through all characters there are.

/-- A statement about the characters of a text is decided by going through the text. -/
instance decidableForallMem (text : List Char) (p : Char → Prop) [DecidablePred p] :
    Decidable (∀ c ∈ text, p c) :=
  List.decidableBAll p text

instance decidableForallNext (next : Option Char) (p : Char → Prop) [DecidablePred p] :
    Decidable (∀ c ∈ next, p c) :=
  Option.decidableForallMem next

instance decidableExistsNext (next : Option Char) (p : Char → Prop) [DecidablePred p] :
    Decidable (∃ c ∈ next, p c) :=
  Option.decidableExistsMem next

/-! ### The window -/

@[simp] theorem window_zero (text : List Char) : window 0 text = some [] := by
  cases text <;> rfl

theorem window_cons_ascii {c : Char} (hc : c.utf8Size = 1) (n : Nat) (rest : List Char) :
    window (n + 1) (c :: rest) = (window n rest).map (c :: ·) := by
  simp [window, hc]

/-- The next byte is a whole character, or there is none. -/
theorem window_one_isSome (text : List Char) :
    (window 1 text).isSome ↔ ∀ c ∈ text.head?, c.utf8Size = 1 := by
  cases text with
  | nil => simp [window]
  | cons c rest =>
    have hpos := c.utf8Size_pos
    by_cases hc : c.utf8Size = 1
    · simp [window, hc]
    · have hlarge : ¬ c.utf8Size ≤ 1 := by omega
      simp [window, hc, hlarge]

/-- A word of single bytes is found in the window where the text begins with it and the window does
not end inside a character. -/
theorem isPrefixOf_window {word : List Char} (hword : ∀ c ∈ word, c.utf8Size = 1) (hne : word ≠ []) :
    ∀ {n : Nat} {text : List Char}, word.length ≤ n →
      (word.isPrefixOf ((window n text).getD []) ↔
        word <+: text ∧ (window (n - word.length) (text.drop word.length)).isSome) := by
  -- each character of the word takes one byte of the window, and leaves the rest of both
  induction word with
  | nil => exact absurd rfl hne
  | cons c word ih =>
    intro n text hn
    obtain ⟨m, rfl⟩ : ∃ m, n = m + 1 := ⟨n - 1, by simp at hn; omega⟩
    have hc : c.utf8Size = 1 := hword c List.mem_cons_self
    have hlen : word.length ≤ m := by simpa using hn
    cases text with
    | nil => simp [window]
    | cons d rest =>
      by_cases hcd : c = d
      · subst hcd
        rw [window_cons_ascii hc]
        have htail : (m + 1 - (c :: word).length) = m - word.length := by simp
        rw [htail, List.cons_prefix_cons, List.length_cons, List.drop_succ_cons]
        cases word with
        | nil => cases hw : window m rest <;> simp [hw]
        | cons e word =>
          have hrest := @ih (fun x hx => hword x (List.mem_cons_of_mem _ hx)) (by simp) m rest hlen
          rw [eq_self_iff_true, true_and, ← hrest]
          cases hw : window m rest <;> simp
      · -- the window is empty or begins with `d`
        have hhead : ((window (m + 1) (d :: rest)).getD []).head? ≠ some c := by
          unfold window
          split
          · cases window (m + 1 - d.utf8Size) rest <;> simp [Ne.symm hcd]
          · simp
        constructor
        · intro hpre
          obtain ⟨more, hmore⟩ := List.isPrefixOf_iff_prefix.1 hpre
          exact absurd (by rw [← hmore]; rfl) hhead
        · rintro ⟨hpre, -⟩
          exact absurd (List.cons_prefix_cons.1 hpre).1 hcd

/-! ### Operators -/

theorem operators3_ascii : ∀ op ∈ operators3, op.length = 3 ∧ ∀ c ∈ op, c.utf8Size = 1 := by
  decide

theorem operators2_ascii : ∀ op ∈ operators2, op.length = 2 ∧ ∀ c ∈ op, c.utf8Size = 1 := by
  decide

theorem operators3_parts : ∀ op ∈ operators3, ∀ c ∈ op, c ∈ operators1 := by decide

theorem operators2_parts : ∀ op ∈ operators2, ∀ c ∈ op, c ∈ operators1 := by decide

/-- A text begins with a word of a list of words of one length where its first characters are such a
word. -/
theorem any_prefix_iff {words : List (List Char)} {n : Nat} (h : ∀ word ∈ words, word.length = n)
    (text : List Char) : (∃ word ∈ words, word <+: text) ↔ text.take n ∈ words := by
  constructor
  · rintro ⟨word, hword, hpre⟩
    rwa [← h word hword, ← List.prefix_iff_eq_take.1 hpre]
  · intro hmem
    exact ⟨_, hmem, List.take_prefix n text⟩

theorem any_operators3 (text : List Char) :
    (operators3.any (·.isPrefixOf ((window 3 text).getD []))) = true ↔ text.take 3 ∈ operators3 := by
  rw [← any_prefix_iff (fun op hop => (operators3_ascii op hop).1), List.any_eq_true]
  refine exists_congr fun op => and_congr_right fun hop => ?_
  obtain ⟨hlen, hascii⟩ := operators3_ascii op hop
  rw [isPrefixOf_window hascii (by rintro rfl; simp at hlen) (by omega), hlen]
  simp

theorem any_operators2 (text : List Char) :
    (operators2.any (·.isPrefixOf ((window 3 text).getD []))) = true ↔
      text.take 2 ∈ operators2 ∧ ∀ c ∈ (text.drop 2).head?, c.utf8Size = 1 := by
  rw [← any_prefix_iff (fun op hop => (operators2_ascii op hop).1), List.any_eq_true,
    ← window_one_isSome]
  constructor
  · rintro ⟨op, hop, hpre⟩
    obtain ⟨hlen, hascii⟩ := operators2_ascii op hop
    rw [isPrefixOf_window hascii (by rintro rfl; simp at hlen) (by omega), hlen] at hpre
    exact ⟨⟨op, hop, hpre.1⟩, hpre.2⟩
  · rintro ⟨⟨op, hop, hpre⟩, hwhole⟩
    obtain ⟨hlen, hascii⟩ := operators2_ascii op hop
    refine ⟨op, hop, ?_⟩
    rw [isPrefixOf_window hascii (by rintro rfl; simp at hlen) (by omega), hlen]
    exact ⟨hpre, hwhole⟩

theorem any_take_one (p : Char → Bool) (text : List Char) : (text.take 1).any p = text.head?.any p := by
  cases text with
  | nil => rfl
  | cons c rest => simp

/-- **The operator at the beginning of a text.** Three characters that are an operator win; two do
if the character behind them, where there is one, is a single byte; then one. -/
theorem operatorLength_eq (text : List Char) :
    operatorLength text =
      if text.take 3 ∈ operators3 then 3
      else if text.take 2 ∈ operators2 ∧ ∀ c ∈ (text.drop 2).head?, c.utf8Size = 1 then 2
      else if (text.take 1).any operators1.contains then 1
      else 0 := by
  simp only [operatorLength, any_operators3, any_operators2]

/-- What begins no operator of one character begins none at all. -/
theorem operatorLength_eq_zero {c : Char} (hc : c ∉ operators1) (rest : List Char) :
    operatorLength (c :: rest) = 0 := by
  have h3 : (c :: rest).take 3 ∉ operators3 := fun hmem =>
    hc (operators3_parts _ hmem c (by simp))
  have h2 : (c :: rest).take 2 ∉ operators2 := fun hmem =>
    hc (operators2_parts _ hmem c (by simp))
  rw [operatorLength_eq, if_neg h3, if_neg fun h => h2 h.1]
  simp [hc]

/-- An operator of one character is found unless a longer one is. -/
theorem operatorLength_pos {c : Char} (hc : c ∈ operators1) (rest : List Char) :
    0 < operatorLength (c :: rest) := by
  rw [operatorLength_eq]
  split
  · omega
  split
  · omega
  · simp [hc]

/-! ### The longest operator -/

/-- All operators. -/
def operators : List (List Char) := operators3 ++ operators2 ++ operators1.map fun c => [c]

theorem mem_operators_iff {op : List Char} :
    op ∈ operators ↔ op ∈ operators3 ∨ op ∈ operators2 ∨ ∃ c ∈ operators1, [c] = op := by
  rw [operators, List.mem_append, List.mem_append, List.mem_map, or_assoc]

/-- **The longest operator** that a text begins with. -/
structure IsLongestOperator (op text : List Char) : Prop where
  operator : op ∈ operators
  begins : op <+: text
  longest : ∀ other ∈ operators, other <+: text → other.length ≤ op.length

/-- **Text in which the window hides an operator:** one of two characters, and right behind it a
character of several bytes, which the window would cut. -/
def HidesOperator (text : List Char) : Prop :=
  text.take 2 ∈ operators2 ∧ ∃ c ∈ (text.drop 2).head?, 1 < c.utf8Size

/-- No operator of three characters begins where one of two is hidden. -/
theorem HidesOperator.notMem_operators3 {text : List Char} (h : HidesOperator text) :
    text.take 3 ∉ operators3 := by
  obtain ⟨-, c, hc, hlarge⟩ := h
  intro hmem
  obtain ⟨rest, hrest⟩ := List.head?_eq_some_iff.1 hc
  have hin : c ∈ text.take 3 := by
    rw [← List.take_append_drop 2 text, hrest, List.mem_take_iff_getElem]
    have hlength : 2 ≤ text.length := by
      have := congrArg List.length hrest
      simp at this
      omega
    exact ⟨2, by simp; omega, by simp [hlength]⟩
  have hascii := (operators3_ascii _ hmem).2 c hin
  omega

/-- Where an operator is hidden, only its first character is found. -/
theorem HidesOperator.operatorLength {text : List Char} (h : HidesOperator text) :
    operatorLength text = 1 := by
  have hfirst : (text.take 1).any operators1.contains = true := by
    obtain ⟨hmem, -⟩ := h
    have hparts := operators2_parts _ hmem
    have hlength := (operators2_ascii _ hmem).1
    cases text with
    | nil => simp at hlength
    | cons c text => simpa using hparts c (by simp)
  obtain ⟨hmem, c, hc, hlarge⟩ := id h
  rw [operatorLength_eq, if_neg h.notMem_operators3, if_neg, if_pos hfirst]
  rintro ⟨-, hsmall⟩
  have := hsmall c hc
  omega

/-- The operator of two characters that is hidden is the longest one. -/
theorem HidesOperator.isLongestOperator {text : List Char} (h : HidesOperator text) :
    IsLongestOperator (text.take 2) text where
  operator := mem_operators_iff.2 (.inr (.inl h.1))
  begins := List.take_prefix 2 text
  longest := by
    intro other hother hbegins
    rw [(operators2_ascii _ h.1).1]
    rcases mem_operators_iff.1 hother with h3 | h2 | ⟨c, -, rfl⟩
    · have hlength := (operators3_ascii _ h3).1
      rw [List.prefix_iff_eq_take.1 hbegins, hlength] at h3
      exact absurd h3 h.notMem_operators3
    · exact Nat.le_of_eq (operators2_ascii _ h2).1
    · exact Nat.le_succ 1

/-- The cases in which an operator is found. -/
theorem operatorLength_cases {text : List Char} (h : 0 < operatorLength text) :
    (operatorLength text = 3 ∧ text.take 3 ∈ operators3) ∨
    (operatorLength text = 2 ∧ text.take 2 ∈ operators2 ∧ text.take 3 ∉ operators3) ∨
    (operatorLength text = 1 ∧ (∃ c ∈ operators1, [c] = text.take 1) ∧ text.take 3 ∉ operators3 ∧
      (text.take 2 ∈ operators2 → HidesOperator text)) := by
  rw [operatorLength_eq] at h ⊢
  split at h
  · next h3 => exact .inl ⟨if_pos h3, h3⟩
  next h3 =>
  rw [if_neg h3]
  split at h
  · next h2 => exact .inr (.inl ⟨if_pos h2, h2.1, h3⟩)
  next h2 =>
  rw [if_neg h2]
  split at h
  · next h1 =>
    refine .inr (.inr ⟨if_pos h1, ?_, h3, fun hmem => ⟨hmem, ?_⟩⟩)
    · cases text with
      | nil => simp at h1
      | cons c text => exact ⟨c, by simpa using h1, rfl⟩
    · -- the character behind the two is there, and it is no single byte
      by_contra hnone
      refine h2 ⟨hmem, fun c hc => ?_⟩
      have hpos := c.utf8Size_pos
      by_contra hlarge
      exact hnone ⟨c, hc, by omega⟩
  · omega

/-- What is found is an operator. -/
theorem take_operatorLength_mem {text : List Char} (h : 0 < operatorLength text) :
    text.take (operatorLength text) ∈ operators := by
  rw [mem_operators_iff]
  rcases operatorLength_cases h with ⟨hn, h3⟩ | ⟨hn, h2, -⟩ | ⟨hn, h1, -⟩
  · exact .inl (hn ▸ h3)
  · exact .inr (.inl (hn ▸ h2))
  · exact .inr (.inr (hn ▸ h1))

/-- **The operator that is found is the longest one** unless the window hides one. -/
theorem isLongestOperator_iff {text : List Char} (h : 0 < operatorLength text) :
    IsLongestOperator (text.take (operatorLength text)) text ↔ ¬ HidesOperator text := by
  constructor
  · intro hlongest hhides
    have hlength := (operators2_ascii _ hhides.1).1
    have hle := hlongest.longest _ (mem_operators_iff.2 (.inr (.inl hhides.1))) (List.take_prefix 2 text)
    rw [hhides.operatorLength, hlength, List.length_take] at hle
    omega
  · intro hplain
    refine ⟨take_operatorLength_mem h, List.take_prefix _ text, fun other hother hbegins => ?_⟩
    have hsame : other = text.take other.length := List.prefix_iff_eq_take.1 hbegins
    have hthree : other ∈ operators3 → text.take 3 ∈ operators3 := fun hmem => by
      rwa [← (operators3_ascii _ hmem).1, ← hsame]
    have htwo : other ∈ operators2 → text.take 2 ∈ operators2 := fun hmem => by
      rwa [← (operators2_ascii _ hmem).1, ← hsame]
    have hfit : other.length ≤ operatorLength text := by
      rcases mem_operators_iff.1 hother with h3 | h2 | ⟨c, -, rfl⟩
      · rw [(operators3_ascii _ h3).1]
        rcases operatorLength_cases h with ⟨hn, -⟩ | ⟨-, -, hnot⟩ | ⟨-, -, hnot, -⟩
        · omega
        · exact absurd (hthree h3) hnot
        · exact absurd (hthree h3) hnot
      · rw [(operators2_ascii _ h2).1]
        rcases operatorLength_cases h with ⟨hn, -⟩ | ⟨hn, -⟩ | ⟨-, -, -, hhidden⟩
        · omega
        · omega
        · exact absurd (hhidden (htwo h2)) hplain
      · exact h
    rw [List.length_take]
    exact Nat.le_min.2 ⟨hfit, hbegins.length_le⟩

end Quasiquote.Scan
