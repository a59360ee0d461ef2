import Mathlib.Algebra.Order.Ring.Int
import Mathlib.Data.Int.Bitwise
import Mathlib.Tactic.Positivity
import Quasiquote.Proofs.Host.Growth
import Quasiquote.Proofs.Host.Printing

/-!
# Integer arithmetic

An operation on integers answers with the exact result among all whole numbers if 64 bits hold it, and
with an overflow if they do not. A few operations are refused although their result would fit.

## Main Definitions

* `Arithmetic.Exact`, `Arithmetic.UnaryExact` — the exact results, told without the host's arithmetic
* `Arithmetic.Yields` — an exact result that fits, or an overflow
* `Arithmetic.Refused` — the operations that are refused although their result fits
* `Arithmetic.Answer` — what an operator on two integers answers
* `Gives` — a computation that ends in a new number or in an error

## Main Statements

* `Arithmetic.Exact.unique` — an operation has one exact result
* `Arithmetic.answer_integer` — the answer of each operator
* `integers_exact` — what the host's operators and `abs` give for integers

## Design Notes

Bit operators are told by the bits of whole numbers, of which there are infinitely many; all but finitely
many of them are the sign.
-/

namespace Quasiquote.Host

namespace Arithmetic

/-! ### Exact results -/

/-- A whole number that 64 bits hold. -/
def InRange (n : Int) : Prop := Int64.minValue.toInt ≤ n ∧ n ≤ Int64.maxValue.toInt

instance (n : Int) : Decidable (InRange n) := inferInstanceAs (Decidable (_ ∧ _))

/-- **Division that rounds down:** the remainder is zero or has the sign of the divisor. -/
structure FloorDivides (a b quotient remainder : Int) : Prop where
  eq : a = quotient * b + remainder
  bound : 0 ≤ remainder ∧ remainder < b ∨ b < remainder ∧ remainder ≤ 0

/-- **The exact result of an operator** on whole numbers. Division by `/` has none among them; nor have
division by zero, negative powers and negative shifts. -/
def Exact (op : BinaryOp) (a b n : Int) : Prop :=
  match op with
  | .add => n = a + b
  | .sub => n = a - b
  | .mul => n = a * b
  | .div => False
  | .floorDiv => ∃ remainder, FloorDivides a b n remainder
  | .mod => ∃ quotient, FloorDivides a b quotient n
  | .pow => 0 ≤ b ∧ n = a ^ b.toNat
  | .bitOr => ∀ k, n.testBit k = (a.testBit k || b.testBit k)
  | .bitXor => ∀ k, n.testBit k = (a.testBit k ^^ b.testBit k)
  | .bitAnd => ∀ k, n.testBit k = (a.testBit k && b.testBit k)
  | .shiftLeft => 0 ≤ b ∧ n = a * 2 ^ b.toNat
  | .shiftRight => 0 ≤ b ∧ ∃ remainder, FloorDivides a (2 ^ b.toNat) n remainder

/-- The exact result of a sign or a complement. -/
def UnaryExact (op : UnaryOp) (a n : Int) : Prop :=
  match op with
  | .neg => n = -a
  | .pos => n = a
  | .invert => ∀ k, n.testBit k = !a.testBit k

/-- An operation with exact results answers with one that fits, or with an overflow if one does not. -/
inductive Yields (exact : Int → Prop) : Except EvalError Number → Prop
  | fits {i : Int64} : exact i.toInt → Yields exact (.ok (.int i))
  | overflow {n : Int} : exact n → ¬ InRange n → Yields exact (.error .overflow)

/-- **Operations that are refused although their result fits:** the remainder of the least integer by
minus one, a power of minus one, zero or one with an exponent of more than 32 bits, and zero shifted by
the width or more. -/
def Refused (op : BinaryOp) (a b : Int64) : Prop :=
  op = .mod ∧ a = Int64.minValue ∧ b = -1 ∨
  op = .pow ∧ a.toInt.natAbs ≤ 1 ∧ 2 ^ 32 ≤ b.toInt ∨
  op = .shiftLeft ∧ a = 0 ∧ 64 ≤ b.toInt

/-- **What an operator on two integers answers.** -/
inductive Answer (op : BinaryOp) (a b : Int64) : Except EvalError Number → Prop
  | exact {answer : Except EvalError Number} : ¬ Refused op a b →
      Yields (Exact op a.toInt b.toInt) answer → Answer op a b answer
  | refused : Refused op a b → Answer op a b (.error .overflow)
  | zeroDivision : op = .floorDiv ∨ op = .mod → b = 0 → Answer op a b (.error .zeroDivision)
  | negativeShift : op = .shiftLeft ∨ op = .shiftRight → b.toInt < 0 →
      Answer op a b (.error .negativeShift)

/-! ### There is one exact result -/

/-- Quotients and remainders that round down, by any divisor but zero. -/
theorem floorDivides_iff {a b q r : Int} :
    FloorDivides a b q r ↔ b ≠ 0 ∧ a.fdiv b = q ∧ a.fmod b = r := by
  have heq : a = q * b + r ↔ r + b * q = a := by rw [Int.mul_comm q b, Int.add_comm, eq_comm]
  constructor
  · rintro ⟨hsum, hbound⟩
    rw [heq] at hsum
    rcases hbound with ⟨hle, hlt⟩ | ⟨hlt, hle⟩
    · have hpos : 0 < b := by omega
      exact ⟨by omega, (Int.fdiv_fmod_unique hpos).2 ⟨hsum, hle, hlt⟩⟩
    · have hneg : b < 0 := by omega
      exact ⟨by omega, (Int.fdiv_fmod_unique' hneg).2 ⟨hsum, hlt, hle⟩⟩
  · rintro ⟨hne, hdivides⟩
    rcases Int.lt_or_gt_of_ne hne with hneg | hpos
    · obtain ⟨hsum, hbound⟩ := (Int.fdiv_fmod_unique' hneg).1 hdivides
      exact ⟨heq.2 hsum, .inr hbound⟩
    · obtain ⟨hsum, hbound⟩ := (Int.fdiv_fmod_unique hpos).1 hdivides
      exact ⟨heq.2 hsum, .inl hbound⟩

theorem floorDivides {a b : Int} (hb : b ≠ 0) : FloorDivides a b (a.fdiv b) (a.fmod b) :=
  floorDivides_iff.2 ⟨hb, rfl, rfl⟩

/-- A whole number is told by its bits. -/
theorem eq_of_testBit_eq {m n : Int} (h : ∀ k, m.testBit k = n.testBit k) : m = n := by
  -- far enough up, the bits of one sign differ from those of the other
  have hfar (i j : Nat) : i.testBit (i + j) = false ∧ j.testBit (i + j) = false := by
    have hi : i < 2 ^ (i + j) := Nat.lt_of_le_of_lt (Nat.le_add_right i j) Nat.lt_two_pow_self
    have hj : j < 2 ^ (i + j) := Nat.lt_of_le_of_lt (Nat.le_add_left j i) Nat.lt_two_pow_self
    exact ⟨Nat.testBit_lt_two_pow hi, Nat.testBit_lt_two_pow hj⟩
  cases m with
  | ofNat i =>
    cases n with
    | ofNat j => exact congrArg Int.ofNat (Nat.eq_of_testBit_eq h)
    | negSucc j =>
      have hbit : i.testBit (i + j) = !j.testBit (i + j) := h (i + j)
      rw [(hfar i j).1, (hfar i j).2] at hbit
      cases hbit
  | negSucc i =>
    cases n with
    | ofNat j =>
      have hbit : (!i.testBit (i + j)) = j.testBit (i + j) := h (i + j)
      rw [(hfar i j).1, (hfar i j).2] at hbit
      cases hbit
    | negSucc j => exact congrArg Int.negSucc (Nat.eq_of_testBit_eq fun k => Bool.not_inj (h k))

/-- **An operation has one exact result.** -/
theorem Exact.unique {op : BinaryOp} {a b m n : Int} (hm : Exact op a b m) (hn : Exact op a b n) :
    m = n := by
  cases op with
  | add | sub | mul => exact hm.trans hn.symm
  | div => exact hm.elim
  | floorDiv =>
    obtain ⟨_, hm⟩ := hm
    obtain ⟨_, hn⟩ := hn
    exact (floorDivides_iff.1 hm).2.1.symm.trans (floorDivides_iff.1 hn).2.1
  | mod =>
    obtain ⟨_, hm⟩ := hm
    obtain ⟨_, hn⟩ := hn
    exact (floorDivides_iff.1 hm).2.2.symm.trans (floorDivides_iff.1 hn).2.2
  | pow | shiftLeft => exact hm.2.trans hn.2.symm
  | bitOr | bitXor | bitAnd => exact eq_of_testBit_eq fun k => (hm k).trans (hn k).symm
  | shiftRight =>
    obtain ⟨-, _, hm⟩ := hm
    obtain ⟨-, _, hn⟩ := hn
    exact (floorDivides_iff.1 hm).2.1.symm.trans (floorDivides_iff.1 hn).2.1

theorem UnaryExact.unique {op : UnaryOp} {a m n : Int} (hm : UnaryExact op a m)
    (hn : UnaryExact op a n) : m = n := by
  cases op with
  | neg | pos => exact hm.trans hn.symm
  | invert => exact eq_of_testBit_eq fun k => (hm k).trans (hn k).symm

theorem inRange_toInt (i : Int64) : InRange i.toInt :=
  ⟨Int64.minValue_le_toInt i, Int64.toInt_le i⟩

/-- One exact result leads to one answer. -/
theorem Yields.unique {exact : Int → Prop} (hexact : ∀ m n, exact m → exact n → m = n)
    {answer answer' : Except EvalError Number} (h : Yields exact answer) (h' : Yields exact answer') :
    answer = answer' := by
  cases h with
  | @fits i hi =>
    cases h' with
    | @fits j hj => rw [Int64.toInt_inj.1 (hexact _ _ hi hj)]
    | overflow hn hout => exact absurd (hexact _ _ hi hn ▸ inRange_toInt i) hout
  | overflow hn hout =>
    cases h' with
    | @fits j hj => exact absurd (hexact _ _ hj hn ▸ inRange_toInt j) hout
    | overflow => rfl

/-- Division by zero and shifts by less than nothing have no exact result. -/
theorem Exact.defined {op : BinaryOp} {a b n : Int} (h : Exact op a b n) :
    (op = .floorDiv ∨ op = .mod → b ≠ 0) ∧ (op = .shiftLeft ∨ op = .shiftRight → 0 ≤ b) := by
  refine ⟨?_, ?_⟩
  · rintro (rfl | rfl)
    · exact (floorDivides_iff.1 h.choose_spec).1
    · exact (floorDivides_iff.1 h.choose_spec).1
  · rintro (rfl | rfl)
    · exact h.1
    · exact h.1

theorem Yields.exists_exact {exact : Int → Prop} {answer : Except EvalError Number}
    (h : Yields exact answer) : ∃ n, exact n := by
  cases h with
  | fits hi => exact ⟨_, hi⟩
  | overflow hn => exact ⟨_, hn⟩

/-- An operation that is refused is no division by zero and no shift by less than nothing. -/
theorem Refused.defined {op : BinaryOp} {a b : Int64} (h : Refused op a b) :
    (op = .floorDiv ∨ op = .mod → b ≠ 0) ∧ (op = .shiftLeft ∨ op = .shiftRight → 0 ≤ b.toInt) := by
  rcases h with ⟨rfl, -, rfl⟩ | ⟨rfl, -, -⟩ | ⟨rfl, -, hb⟩
  · exact ⟨fun _ => by decide, by simp⟩
  · exact ⟨by simp, by simp⟩
  · exact ⟨by simp, fun _ => by omega⟩

/-- **An operator answers in one way.** -/
theorem Answer.unique {op : BinaryOp} {a b : Int64} {answer answer' : Except EvalError Number}
    (h : Answer op a b answer) (h' : Answer op a b answer') : answer = answer' := by
  -- where there is an exact result or a refusal, nothing is divided by zero or shifted the wrong way
  have hdefined {answer : Except EvalError Number} (h : Yields (Exact op a.toInt b.toInt) answer) :
      (op = .floorDiv ∨ op = .mod → b ≠ 0) ∧ (op = .shiftLeft ∨ op = .shiftRight → 0 ≤ b.toInt) := by
    obtain ⟨n, hn⟩ := h.exists_exact
    refine ⟨fun hop hzero => hn.defined.1 hop ?_, hn.defined.2⟩
    rw [hzero]
    rfl
  cases h with
  | exact hnot hyields =>
    cases h' with
    | exact _ hyields' => exact hyields.unique (fun _ _ => Exact.unique) hyields'
    | refused hrefused => exact absurd hrefused hnot
    | zeroDivision hop hzero => exact absurd hzero ((hdefined hyields).1 hop)
    | negativeShift hop hneg => exact absurd ((hdefined hyields).2 hop) (Int.not_le.2 hneg)
  | refused hrefused =>
    cases h' with
    | exact hnot => exact absurd hrefused hnot
    | refused => rfl
    | zeroDivision hop hzero => exact absurd hzero (hrefused.defined.1 hop)
    | negativeShift hop hneg => exact absurd (hrefused.defined.2 hop) (Int.not_le.2 hneg)
  | zeroDivision hop hzero =>
    cases h' with
    | exact _ hyields => exact absurd hzero ((hdefined hyields).1 hop)
    | refused hrefused => exact absurd hzero (hrefused.defined.1 hop)
    | zeroDivision => rfl
    | negativeShift hop' => rcases hop with rfl | rfl <;> simp at hop'
  | negativeShift hop hneg =>
    cases h' with
    | exact _ hyields => exact absurd ((hdefined hyields).2 hop) (Int.not_le.2 hneg)
    | refused hrefused => exact absurd (hrefused.defined.2 hop) (Int.not_le.2 hneg)
    | zeroDivision hop' => rcases hop with rfl | rfl <;> simp at hop'
    | negativeShift => rfl

/-! ### Bits -/

/-- The bits of an integer are its 64 bits, the last of which goes on. -/
theorem testBit_toInt (i : Int64) (k : Nat) :
    i.toInt.testBit k = i.toBitVec.getLsbD (min k 63) := by
  rw [← Int64.toInt_toBitVec]
  generalize i.toBitVec = x
  have hlast : x.msb = x.getLsbD 63 := x.msb_eq_getLsbD_last
  have hbit : x.toNat.testBit k = x.getLsbD k := rfl
  have hsize : x.toNat < 2 ^ 64 := x.isLt
  rw [BitVec.toInt_eq_msb_cond]
  by_cases hneg : x.msb = true
  · have hsucc : (x.toNat : Int) - ((2 ^ 64 : Nat) : Int) = Int.negSucc (2 ^ 64 - (x.toNat + 1)) := by
      omega
    rw [if_pos hneg, hsucc]
    show (!(2 ^ 64 - (x.toNat + 1)).testBit k) = _
    rw [Nat.testBit_two_pow_sub_succ hsize, hbit]
    rcases Nat.lt_or_ge k 64 with hk | hk
    · rw [Nat.min_eq_left (by omega)]
      simp [hk]
    · rw [Nat.min_eq_right (by omega), ← hlast, hneg]
      simp [Nat.not_lt.2 hk]
  · rw [Bool.not_eq_true] at hneg
    rw [if_neg (by simp [hneg])]
    show x.toNat.testBit k = _
    rw [hbit]
    rcases Nat.lt_or_ge k 64 with hk | hk
    · rw [Nat.min_eq_left (by omega)]
    · rw [Nat.min_eq_right (by omega), ← hlast, hneg, BitVec.getLsbD_of_ge x k hk]

/-! ### What the operators answer -/

/-- A whole number is answered if it fits. -/
theorem yields_exact {P : Int → Prop} {n : Int} (hn : P n) : Yields P (exact n) := by
  by_cases hrange : InRange n
  · have hlow : -2 ^ 63 ≤ n := hrange.1
    have hhigh : n ≤ 2 ^ 63 - 1 := hrange.2
    have hvalue : (Int64.ofInt n).toInt = n := Int64.toInt_ofInt_of_le hlow (by omega)
    have hfits := fits?_toInt (.ofInt n)
    rw [hvalue] at hfits
    rw [exact, hfits]
    exact .fits (hvalue.symm ▸ hn)
  · have hfits : Decimal.fits? n = none := if_neg hrange
    rw [exact, hfits]
    exact .overflow hn hrange

theorem signedPower_eq (a : Int) (exponent : Nat) : signedPower a exponent = a ^ exponent := by
  have hpow : ((a.natAbs.pow exponent : Nat) : Int) = (a.natAbs : Int) ^ exponent := Int.natCast_pow _ _
  unfold signedPower
  split
  · next hneg =>
    obtain ⟨hneg, hodd⟩ := hneg
    have hsize : (a.natAbs : Int) = -a := by omega
    rw [hpow, hsize, (Nat.odd_iff.2 hodd).neg_pow, Int.neg_neg]
  · next hpos =>
    rw [hpow]
    rcases lt_or_ge a 0 with hneg | hnonneg
    · have heven : Even exponent := by
        rw [Nat.even_iff]
        omega
      have hsize : (a.natAbs : Int) = -a := by omega
      rw [hsize, heven.neg_pow]
    · rw [Int.natAbs_of_nonneg hnonneg]

/-- What is at least two to the power of 64 in size does not fit. -/
theorem not_inRange {n : Int} (h : 2 ^ 64 ≤ n.natAbs) : ¬ InRange n := by
  rintro ⟨hlow, hhigh⟩
  have hleast : Int64.minValue.toInt = -2 ^ 63 := rfl
  have hgreatest : Int64.maxValue.toInt = 2 ^ 63 - 1 := rfl
  omega

/-- High powers of anything but minus one, zero and one do not fit. -/
theorem not_inRange_pow {a : Int} {k : Nat} (ha : 2 ≤ a.natAbs) (hk : 64 ≤ k) : ¬ InRange (a ^ k) := by
  apply not_inRange
  rw [Int.natAbs_pow]
  exact (Nat.pow_le_pow_right (by decide) hk).trans (Nat.pow_le_pow_left ha k)

/-- Nothing but zero fits when it is shifted by the width or more. -/
theorem not_inRange_shift {a : Int} {k : Nat} (ha : a ≠ 0) (hk : 64 ≤ k) : ¬ InRange (a * 2 ^ k) := by
  apply not_inRange
  have hpos : 1 ≤ a.natAbs := Int.natAbs_pos.2 ha
  rw [Int.natAbs_mul, Int.natAbs_pow]
  exact (Nat.pow_le_pow_right (by decide) hk).trans (Nat.le_mul_of_pos_left _ hpos)

variable {a b : Int64}

theorem answer_power (hb : 0 ≤ b.toInt) : Answer .pow a b (power a b) := by
  have hexact : Exact .pow a.toInt b.toInt (a.toInt ^ b.toInt.toNat) := ⟨hb, rfl⟩
  have hlarge (ha : 2 ≤ a.toInt.natAbs) (hk : 64 ≤ b.toInt) : Answer .pow a b (.error .overflow) := by
    refine .exact ?_ (.overflow hexact (not_inRange_pow ha (by omega)))
    rintro (⟨hop, -⟩ | ⟨-, hsmall, -⟩ | ⟨hop, -⟩)
    · cases hop
    · omega
    · cases hop
  have hlimit : exponentLimit = 2 ^ 32 := rfl
  rw [power, if_neg (by omega), hlimit]
  split
  · next hhuge =>
    by_cases ha : a.toInt.natAbs ≤ 1
    · exact .refused (.inr (.inl ⟨rfl, ha, hhuge⟩))
    · exact hlarge (by omega) (by omega)
  split
  · next hout => exact hlarge hout.1 hout.2
  · next hhuge hout =>
    refine .exact ?_ (yields_exact (by rwa [signedPower_eq]))
    rintro (⟨hop, -⟩ | ⟨-, -, hlimit⟩ | ⟨hop, -⟩)
    · cases hop
    · exact hhuge hlimit
    · cases hop

theorem answer_shiftLeft : Answer .shiftLeft a b (shiftLeft a b) := by
  rw [shiftLeft]
  split
  · next hneg => exact .negativeShift (.inl rfl) hneg
  · next hb =>
    have hexact : Exact .shiftLeft a.toInt b.toInt (a.toInt * 2 ^ b.toInt.toNat) := ⟨by omega, rfl⟩
    split
    · next hwide =>
      by_cases ha : a = 0
      · exact .refused (.inr (.inr ⟨rfl, ha, hwide⟩))
      · have hne : a.toInt ≠ 0 := fun hzero => ha (Int64.toInt_inj.1 hzero)
        refine .exact ?_ (.overflow hexact (not_inRange_shift hne (by omega)))
        rintro (⟨hop, -⟩ | ⟨hop, -⟩ | ⟨-, hzero, -⟩)
        · cases hop
        · cases hop
        · exact ha hzero
    · next hnarrow =>
      refine .exact ?_ (yields_exact (by rwa [Int.shiftLeft_eq]))
      rintro (⟨hop, -⟩ | ⟨hop, -⟩ | ⟨-, -, hwide⟩)
      · cases hop
      · cases hop
      · exact hnarrow hwide

/-- An integer shifted to the right by more than its width is its sign. -/
theorem fdiv_two_pow (k : Nat) : a.toInt.fdiv (2 ^ k) = a.toInt >>> min k 63 := by
  have hlow : -2 ^ 63 ≤ a.toInt := Int64.le_toInt a
  have hhigh : a.toInt < 2 ^ 63 := Int64.toInt_lt a
  have hcast (j : Nat) : ((2 ^ j : Nat) : Int) = 2 ^ j := by norm_cast
  rw [Int.shiftRight_eq_div_pow, hcast, Int.fdiv_eq_ediv_of_nonneg _ (by positivity)]
  rcases Nat.le_total k 63 with hk | hk
  · rw [Nat.min_eq_left hk]
  · have hwide : (2 : Int) ^ 63 ≤ 2 ^ k := pow_le_pow_right₀ (by decide) hk
    rw [Nat.min_eq_right hk]
    rcases lt_or_ge a.toInt 0 with hneg | hnonneg
    · rw [Int.ediv_eq_neg_one_of_neg_of_le hneg (by omega),
        Int.ediv_eq_neg_one_of_neg_of_le hneg (by omega)]
    · rw [Int.ediv_eq_zero_of_lt hnonneg (by omega), Int.ediv_eq_zero_of_lt hnonneg hhigh]

theorem answer_shiftRight : Answer .shiftRight a b (shiftRight a b) := by
  rw [shiftRight]
  split
  · next hneg => exact .negativeShift (.inr rfl) hneg
  · next hb =>
    have hpower : (2 : Int) ^ b.toInt.toNat ≠ 0 := by positivity
    have hdivides := floorDivides (a := a.toInt) hpower
    rw [fdiv_two_pow] at hdivides
    refine .exact (by simp [Refused]) (yields_exact ?_)
    exact ⟨by omega, _, hdivides⟩

/-- **The answer of each operator,** apart from division by `/` and negative powers, which give floats. -/
theorem answer_integer {op : BinaryOp} (hdiv : op ≠ .div) (hpow : op = .pow → 0 ≤ b.toInt) :
    Answer op a b (integer op a b) := by
  have hzero : b ≠ 0 → b.toInt ≠ 0 := fun hb hzero => hb (Int64.toInt_inj.1 hzero)
  cases op with
  | add | sub | mul => exact .exact (by simp [Refused]) (yields_exact rfl)
  | div => exact absurd rfl hdiv
  | floorDiv =>
    show Answer _ a b (floorDivide a b)
    rw [floorDivide]
    split
    · next hb => exact .zeroDivision (.inl rfl) hb
    · next hb => exact .exact (by simp [Refused]) (yields_exact ⟨_, floorDivides (hzero hb)⟩)
  | mod =>
    show Answer _ a b (modulo a b)
    rw [modulo]
    split
    · next hb => exact .zeroDivision (.inr rfl) hb
    split
    · next hleast => exact .refused (.inl ⟨rfl, hleast⟩)
    · next hb hother =>
      refine .exact ?_ (yields_exact ⟨_, floorDivides (hzero hb)⟩)
      rintro (⟨-, hleast⟩ | ⟨hop, -⟩ | ⟨hop, -⟩)
      · exact hother hleast
      · cases hop
      · cases hop
  | pow => exact answer_power (hpow rfl)
  | bitOr =>
    refine .exact (by simp [Refused]) (.fits fun k => ?_)
    rw [testBit_toInt, testBit_toInt, testBit_toInt, Int64.toBitVec_or, BitVec.getLsbD_or]
  | bitXor =>
    refine .exact (by simp [Refused]) (.fits fun k => ?_)
    rw [testBit_toInt, testBit_toInt, testBit_toInt, Int64.toBitVec_xor, BitVec.getLsbD_xor]
  | bitAnd =>
    refine .exact (by simp [Refused]) (.fits fun k => ?_)
    rw [testBit_toInt, testBit_toInt, testBit_toInt, Int64.toBitVec_and, BitVec.getLsbD_and]
  | shiftLeft => exact answer_shiftLeft
  | shiftRight => exact answer_shiftRight

/-- The signs and the complement. -/
theorem yields_unary (op : UnaryOp) :
    ∃ answer, unary? op (.int a) = some answer ∧ Yields (UnaryExact op a.toInt) answer := by
  cases op with
  | neg => exact ⟨_, rfl, yields_exact rfl⟩
  | pos => exact ⟨_, rfl, .fits rfl⟩
  | invert =>
    refine ⟨_, rfl, .fits fun k => ?_⟩
    rw [testBit_toInt, testBit_toInt, Int64.toBitVec_not, BitVec.getLsbD_not]
    simp

theorem yields_absolute : Yields (· = |a.toInt|) (absolute (.int a)) :=
  yields_exact (Int.abs_eq_natAbs a.toInt).symm

/-- **What is refused would fit.** -/
theorem Refused.inRange {op : BinaryOp} (h : Refused op a b) :
    ∃ n, Exact op a.toInt b.toInt n ∧ InRange n := by
  rcases h with ⟨rfl, rfl, rfl⟩ | ⟨rfl, ha, hb⟩ | ⟨rfl, rfl, hb⟩
  · exact ⟨0, ⟨2 ^ 63, by decide, by decide⟩, by decide⟩
  · refine ⟨_, ⟨by omega, rfl⟩, ?_⟩
    have hsize : (a.toInt ^ b.toInt.toNat).natAbs ≤ 1 := by
      rw [Int.natAbs_pow]
      exact (Nat.pow_le_pow_left ha _).trans_eq (Nat.one_pow _)
    have hleast : Int64.minValue.toInt = -2 ^ 63 := rfl
    have hgreatest : Int64.maxValue.toInt = 2 ^ 63 - 1 := rfl
    exact ⟨by omega, by omega⟩
  · refine ⟨0, ⟨by omega, ?_⟩, by decide⟩
    show 0 = 0 * _
    rw [Int.zero_mul]

end Arithmetic

/-! ### Operators of the host -/

/-- The object of a number. -/
def numberObject : Number → Object
  | .int i => .int i
  | .float f => .float f

/-- A computation ends with an answer of arithmetic: in a new object that is the number, or in the
error. -/
def Gives (m : Computation Ref) (h : Heap) : Except EvalError Number → Prop
  | .ok n => ∃ r g, m h = .ok (r, g) ∧ g.get r = numberObject n
  | .error e => m h = .error (.eval e)

theorem allocResult_error (e : EvalError) (h : Heap) :
    allocResult (.error e) h = .error (.eval e) := rfl

theorem allocResult_ok (n : Number) (h : Heap) :
    allocResult (.ok n) h = .ok (h.alloc (numberObject n)) := by
  cases n <;> rfl

/-- A computation that hands on an answer of arithmetic gives that answer alone. -/
theorem gives_iff {m : Computation Ref} {h : Heap} {given answer : Except EvalError Number}
    (hm : m h = allocResult given h) : Gives m h answer ↔ answer = given := by
  have hnumber {n n' : Number} : numberObject n = numberObject n' ↔ n' = n := by
    cases n <;> cases n' <;> simp [numberObject, eq_comm]
  cases given with
  | error e =>
    rw [allocResult_error] at hm
    cases answer <;> simp [Gives, hm, eq_comm]
  | ok n =>
    rw [allocResult_ok] at hm
    cases answer with
    | error e => simp [Gives, hm]
    | ok n' =>
      constructor
      · rintro ⟨r, g, hrun, hget⟩
        have halloc : h.alloc (numberObject n) = (r, g) := Except.ok.inj (hm.symm.trans hrun)
        have hself := Heap.get_alloc_self h (numberObject n)
        rw [halloc] at hself
        rw [hnumber.1 (hself.symm.trans hget)]
      · intro heq
        cases heq
        exact ⟨_, _, hm, Heap.get_alloc_self _ _⟩

section Operators

variable {h : Heap} {left right : Ref} {x y : Number} {answer : Except EvalError Number}

theorem binary_numbers {op : BinaryOp} (hleft : (h.get left).number? = some x)
    (hright : (h.get right).number? = some y) (hop : Arithmetic.binary? op x y = some answer) :
    binary op left right h = allocResult answer h := by
  rw [binary, run_bind, object_run]
  dsimp only
  rw [run_bind, object_run]
  dsimp only
  rw [hleft, hright]
  dsimp only
  rw [hop]

theorem unary_number {op : UnaryOp} (hleft : (h.get left).number? = some x)
    (hop : Arithmetic.unary? op x = some answer) : unary op left h = allocResult answer h := by
  rw [unary, run_bind, object_run]
  dsimp only
  rw [hleft, Option.bind_some, hop]

theorem abs_number (hleft : (h.get left).number? = some x) :
    callBuiltin "abs" [left] h = allocResult (Arithmetic.absolute x) h := by
  show (object left >>= _) h = _
  rw [run_bind, object_run]
  dsimp only
  rw [hleft]

/-- **Integer arithmetic is exact or an overflow.** Where an operator on two integers is not refused, it
gives the exact result if that fits and an overflow if it does not; division by zero and negative shifts
are errors of their own. What is refused would fit. Signs, the complement and `abs` give the exact result
or an overflow. -/
theorem integers_exact {a b : Int64} (hleft : (h.get left).number? = some (.int a))
    (hright : (h.get right).number? = some (.int b)) :
    (∀ op, op ≠ .div → (op = .pow → 0 ≤ b.toInt) →
      (∀ answer, Gives (binary op left right) h answer ↔ Arithmetic.Answer op a b answer) ∧
      (Arithmetic.Refused op a b →
        ∃ n, Arithmetic.Exact op a.toInt b.toInt n ∧ Arithmetic.InRange n)) ∧
    (∀ op answer, Gives (unary op left) h answer ↔
      Arithmetic.Yields (Arithmetic.UnaryExact op a.toInt) answer) ∧
    ∀ answer, Gives (callBuiltin "abs" [left]) h answer ↔
      Arithmetic.Yields (· = |a.toInt|) answer := by
  refine ⟨fun op hdiv hpow => ⟨fun answer => ?_, Arithmetic.Refused.inRange⟩, fun op answer => ?_, fun answer => ?_⟩
  · have hanswer := Arithmetic.answer_integer (a := a) hdiv hpow
    rw [gives_iff (binary_numbers hleft hright rfl)]
    exact ⟨fun heq => heq ▸ hanswer, fun h => h.unique hanswer⟩
  · obtain ⟨given, hop, hgiven⟩ := Arithmetic.yields_unary (a := a) op
    rw [gives_iff (unary_number hleft hop)]
    exact ⟨fun heq => heq ▸ hgiven, fun h => h.unique (fun _ _ => Arithmetic.UnaryExact.unique) hgiven⟩
  · have hgiven := Arithmetic.yields_absolute (a := a)
    rw [gives_iff (abs_number hleft)]
    exact ⟨fun heq => heq ▸ hgiven, fun h => h.unique (fun _ _ hm hn => hm.trans hn.symm) hgiven⟩

end Operators

/-- The least integer, and minus one. -/
def leastOperands : Heap := ⟨#[.int Int64.minValue, .int (-1)]⟩

theorem leastOperands_refused :
    (leastOperands.get ⟨0⟩).number? = some (.int Int64.minValue) ∧
    (leastOperands.get ⟨1⟩).number? = some (.int (-1)) ∧
    Gives (binary .mod ⟨0⟩ ⟨1⟩) leastOperands (.error .overflow) ∧
    ∃ n, Arithmetic.Exact .mod Int64.minValue.toInt (-1 : Int64).toInt n ∧ Arithmetic.InRange n := by
  have hleast : (leastOperands.get ⟨0⟩).number? = some (.int Int64.minValue) := rfl
  have hminus : (leastOperands.get ⟨1⟩).number? = some (.int (-1)) := rfl
  have hrefused : Arithmetic.Refused .mod Int64.minValue (-1) := .inl ⟨rfl, rfl, rfl⟩
  obtain ⟨hgives, hfits⟩ := (integers_exact hleast hminus).1 .mod (by decide) (by decide)
  exact ⟨hleast, hminus, (hgives _).2 (.refused hrefused), hfits hrefused⟩

end Quasiquote.Host
