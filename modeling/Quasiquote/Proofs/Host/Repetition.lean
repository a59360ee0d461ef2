import Mathlib.Algebra.Order.Ring.Int
import Mathlib.Data.List.Basic
import Quasiquote.Proofs.Host.Growth

/-!
# Repeated sequences

A sequence times an integer has exactly the items that the product of length and number asks for. That product
is never counted modulo a machine word: if the bytes of the result do not fit into the largest block of memory,
there is no result at all, and so no shorter one.

## Main Definitions

* `Host.Multiplied` — a value and an integer as operands, in either order

## Main Statements

* `Host.getElem?_cycleItems` — the items of a list that is gone through again and again
* `Host.binary_mul_str`, `Host.binary_mul_list` — the product of a sequence and an integer
* `Host.repeated_exactly` — a sequence is repeated exactly as often as the number says, or not at all

## Design Notes

Below the bound for one block, memory is taken not to run out. A program that does run out of it ends as well,
and returns nothing.
-/

namespace Quasiquote.Host

variable {α : Type}

/-! ### Lists that are gone through -/

theorem repeatItems_eq (items : List α) (count : Nat) :
    repeatItems items count = (List.replicate count items).flatten := by
  rw [repeatItems]
  split
  · next hempty =>
    obtain rfl := List.isEmpty_iff.1 hempty
    simp
  · rfl

theorem length_repeatItems (items : List α) (count : Nat) :
    (repeatItems items count).length = count * items.length := by
  simp [repeatItems_eq]

/-- Repeated items come in the order of the list, again and again. -/
theorem getElem?_repeatItems {items : List α} {count i : Nat} (h : i < count * items.length) :
    (repeatItems items count)[i]? = items[i % items.length]? := by
  rw [repeatItems_eq]
  induction count generalizing i with
  | zero => simp at h
  | succ count ih =>
    rw [List.replicate_succ, List.flatten_cons]
    rcases Nat.lt_or_ge i items.length with hlt | hge
    · rw [List.getElem?_append_left hlt, Nat.mod_eq_of_lt hlt]
    · have hi : i - items.length < count * items.length := by
        rw [Nat.succ_mul] at h
        omega
      rw [List.getElem?_append_right hge, ih hi, Nat.mod_eq_sub_mod hge]

theorem length_cycleItems {items : List α} {length : Nat} (h : items ≠ [] ∨ length = 0) :
    (cycleItems items length).length = length := by
  rw [cycleItems, List.length_append, length_repeatItems, List.length_take]
  rcases h with hne | rfl
  · have hpos : 0 < items.length := List.length_pos_iff.2 hne
    rw [Nat.min_eq_left (Nat.le_of_lt (Nat.mod_lt length hpos)), Nat.mul_comm, Nat.div_add_mod]
  · simp

/-- **A list that is gone through again and again** gives its items in turn. -/
theorem getElem?_cycleItems {items : List α} {length i : Nat} (h : i < length) :
    (cycleItems items length)[i]? = items[i % items.length]? := by
  rcases Nat.eq_zero_or_pos items.length with hzero | hpos
  · obtain rfl := List.length_eq_zero_iff.1 hzero
    simp [cycleItems, repeatItems]
  have hdiv := Nat.div_add_mod length items.length
  rw [Nat.mul_comm] at hdiv
  rw [cycleItems]
  rcases Nat.lt_or_ge i (length / items.length * items.length) with hlt | hge
  · rw [List.getElem?_append_left (length_repeatItems items _ ▸ hlt), getElem?_repeatItems hlt]
  · -- the last round is not finished
    have hrest : i - length / items.length * items.length < length % items.length := by omega
    have hround : i % items.length = i - length / items.length * items.length := by
      conv_lhs => rw [← Nat.sub_add_cancel hge]
      rw [Nat.add_mul_mod_self_right, Nat.mod_eq_of_lt (Nat.lt_trans hrest (Nat.mod_lt length hpos))]
    rw [List.getElem?_append_right (length_repeatItems items _ ▸ hge), length_repeatItems,
      List.getElem?_take_of_lt hrest, hround]

/-! ### Blocks of memory -/

theorem fitsBlock_iff {size count : Nat} : fitsBlock size count = true ↔ size * count < 2 ^ 63 := by
  rw [fitsBlock, decide_eq_true_eq, ← Nat.lt_add_one_iff]
  rfl

/-! ### Products -/

/-- A value and an integer as operands, in either order. -/
def Multiplied (h : Heap) (o : Object) (n : Int64) (left right : Ref) : Prop :=
  (h.get left = o ∧ (h.get right).int? = some n) ∨ ((h.get left).int? = some n ∧ h.get right = o)

/-- An integer is no sequence. -/
theorem sequence_of_int? {o : Object} {n : Int64} (h : o.int? = some n) :
    o.text? = none ∧ o.items? = none := by
  cases o with
  | bool | int => exact ⟨rfl, rfl⟩
  | none | float | str | list | quoter => cases h

section

variable {h : Heap} {left right : Ref} {n : Int64}

/-- Two operands that are not both numbers are repeated, if one of them is an integer. -/
theorem binary_mul_eq (hnumber : (h.get left).number? = none ∨ (h.get right).number? = none)
    (hcount : (h.get left).int?.or (h.get right).int? = some n) :
    binary .mul left right h =
      ((h.get left).text?.or (h.get right).text?).elim
        (((h.get left).items?.or (h.get right).items?).elim
          (fail (.unsupportedOperands .mul (h.get left).typeName (h.get right).typeName))
          fun xs =>
            if fitsBlock (itemSize * xs.length) n.toInt.toNat then
              alloc (.list (cycleItems xs (xs.length * n.toInt.toNat)))
            else fail .tooLarge)
        (fun s =>
          if fitsBlock s.utf8ByteSize n.toInt.toNat then
            alloc (.str (String.ofList (repeatItems s.toList n.toInt.toNat)))
          else fail .tooLarge) h := by
  rw [binary, run_bind, object_run]
  dsimp only
  rw [run_bind, object_run]
  dsimp only
  generalize h.get left = a at hnumber hcount ⊢
  generalize h.get right = b at hnumber hcount ⊢
  have hrepeat : repeatCount? a b = some n.toInt.toNat := by rw [repeatCount?, hcount, Option.map_some]
  simp only [hrepeat]
  rcases hnumber with hnone | hnone
  · rw [hnone]
    cases a.text?.or b.text? <;> cases a.items?.or b.items? <;> rfl
  · rw [hnone]
    cases a.number? <;> cases a.text?.or b.text? <;> cases a.items?.or b.items? <;> rfl

/-- A new object, if something holds, and the end of the program if not. -/
theorem alloc_ite_run (fits : Bool) (o : Object) :
    (if fits then alloc o else fail .tooLarge) h =
      if fits then .ok (h.alloc o) else .error (.eval .tooLarge) := by
  cases fits with
  | false => rfl
  | true => rfl

/-- **A string times an integer,** in either order, is that many copies of it, if they fit. -/
theorem binary_mul_str {s : String} (hop : Multiplied h (.str s) n left right) :
    binary .mul left right h =
      if fitsBlock s.utf8ByteSize n.toInt.toNat then
        .ok (h.alloc (.str (String.ofList (repeatItems s.toList n.toInt.toNat))))
      else .error (.eval .tooLarge) := by
  rw [← alloc_ite_run]
  rcases hop with ⟨hs, hn⟩ | ⟨hn, hs⟩
  · rw [binary_mul_eq (.inl (by rw [hs]; rfl)) (by rw [hs, hn]; rfl), hs]
    rfl
  · rw [binary_mul_eq (.inr (by rw [hs]; rfl)) (by rw [hn]; rfl), hs, (sequence_of_int? hn).1]
    rfl

/-- **A list times an integer,** in either order, is the list gone through up to the product of length and
number, if that many items fit. -/
theorem binary_mul_list {xs : List Ref} (hop : Multiplied h (.list xs) n left right) :
    binary .mul left right h =
      if fitsBlock (itemSize * xs.length) n.toInt.toNat then
        .ok (h.alloc (.list (cycleItems xs (xs.length * n.toInt.toNat))))
      else .error (.eval .tooLarge) := by
  rw [← alloc_ite_run]
  rcases hop with ⟨hxs, hn⟩ | ⟨hn, hxs⟩
  · rw [binary_mul_eq (.inl (by rw [hxs]; rfl)) (by rw [hxs, hn]; rfl), hxs, (sequence_of_int? hn).1]
    rfl
  · obtain ⟨htext, hitems⟩ := sequence_of_int? hn
    rw [binary_mul_eq (.inr (by rw [hxs]; rfl)) (by rw [hn]; rfl), hxs, htext, hitems]
    rfl

/-- A negative number counts as zero. -/
theorem toNat_eq_max (n : Int64) : (n.toInt.toNat : Int) = max n.toInt 0 := Int.toNat_eq_max n.toInt

/-- What fits into a block, with a number that may be negative. -/
theorem fitsBlock_toNat_iff {size : Nat} :
    fitsBlock size n.toInt.toNat = true ↔ (size : Int) * max n.toInt 0 < 2 ^ 63 := by
  rw [fitsBlock_iff, ← toNat_eq_max]
  norm_cast

/-- The values that are returned under a condition. -/
theorem ite_eq_ok_iff {ε β : Type} {fits : Bool} {made answer : β} {e : ε} :
    (if fits then (.ok made : Except ε β) else .error e) = .ok answer ↔ fits = true ∧ answer = made := by
  cases fits with
  | false => exact ⟨nofun, nofun⟩
  | true => exact ⟨fun heq => ⟨rfl, (Except.ok.inj heq).symm⟩, fun heq => by rw [heq.2]; rfl⟩

/-- **A sequence is repeated exactly as often as the number says, or not at all.** Whenever a string times an
integer returns something, in either order, it is a new string of that many copies, and none for a negative
number. Whenever a list times an integer returns something, it is a new list of exactly as many items as the
product of length and number, each the very item of the list whose turn it is. Something is returned exactly if
the bytes of all of it are less than 2⁶³, however large the product is. -/
theorem repeated_exactly {o : Object} (hop : Multiplied h o n left right) :
    (∀ s, o = .str s →
      (∀ answer, binary .mul left right h = .ok answer →
        ∃ t, answer = h.alloc (.str t) ∧ t.toList = (List.replicate n.toInt.toNat s.toList).flatten) ∧
      ((∃ answer, binary .mul left right h = .ok answer) ↔
        (s.utf8ByteSize : Int) * max n.toInt 0 < 2 ^ 63)) ∧
    ∀ xs, o = .list xs →
      (∀ answer, binary .mul left right h = .ok answer →
        ∃ ys, answer = h.alloc (.list ys) ∧ (ys.length : Int) = xs.length * max n.toInt 0 ∧
          ∀ i < ys.length, ys[i]? = xs[i % xs.length]?) ∧
      ((∃ answer, binary .mul left right h = .ok answer) ↔
        8 * (xs.length : Int) * max n.toInt 0 < 2 ^ 63) := by
  constructor
  · rintro s rfl
    simp only [binary_mul_str hop, ite_eq_ok_iff]
    refine ⟨?_, ?_⟩
    · rintro _ ⟨-, rfl⟩
      exact ⟨_, rfl, by rw [String.toList_ofList, repeatItems_eq]⟩
    · rw [exists_and_left, fitsBlock_toNat_iff]
      exact and_iff_left ⟨_, rfl⟩
  · rintro xs rfl
    simp only [binary_mul_list hop, ite_eq_ok_iff]
    refine ⟨?_, ?_⟩
    · rintro _ ⟨-, rfl⟩
      have hne : xs ≠ [] ∨ xs.length * n.toInt.toNat = 0 := by
        by_cases hnil : xs = []
        · exact .inr (by rw [hnil, List.length_nil, Nat.zero_mul])
        · exact .inl hnil
      have hlength := length_cycleItems hne
      refine ⟨_, rfl, ?_, fun i hi => getElem?_cycleItems (hlength ▸ hi)⟩
      rw [hlength, ← toNat_eq_max]
      exact Int.natCast_mul _ _
    · rw [exists_and_left, fitsBlock_toNat_iff]
      exact and_iff_left ⟨_, rfl⟩

end

/-- An item, a list with four times that item, 2, and 2⁶². -/
def fourItems : Heap := ⟨#[.none, .list [⟨0⟩, ⟨0⟩, ⟨0⟩, ⟨0⟩], .int 2, .int 4611686018427387904]⟩

/-- Twice the list has eight items. It times 2⁶² has 2⁶⁴ items, which is zero in a word of 64 bits, and nothing
is returned for it. -/
theorem fourItems_repeated :
    (Multiplied fourItems (.list [⟨0⟩, ⟨0⟩, ⟨0⟩, ⟨0⟩]) 2 ⟨2⟩ ⟨1⟩ ∧
      ∃ ys, binary .mul ⟨2⟩ ⟨1⟩ fourItems = .ok (fourItems.alloc (.list ys)) ∧ ys.length = 8) ∧
    Multiplied fourItems (.list [⟨0⟩, ⟨0⟩, ⟨0⟩, ⟨0⟩]) 4611686018427387904 ⟨1⟩ ⟨3⟩ ∧
      ¬ ∃ answer, binary .mul ⟨1⟩ ⟨3⟩ fourItems = .ok answer := by
  have htwice : Multiplied fourItems (.list [⟨0⟩, ⟨0⟩, ⟨0⟩, ⟨0⟩]) 2 ⟨2⟩ ⟨1⟩ := .inr ⟨rfl, rfl⟩
  have hvast : Multiplied fourItems (.list [⟨0⟩, ⟨0⟩, ⟨0⟩, ⟨0⟩]) 4611686018427387904 ⟨1⟩ ⟨3⟩ :=
    .inl ⟨rfl, rfl⟩
  refine ⟨⟨htwice, ?_⟩, hvast, ?_⟩
  · obtain ⟨hvalue, hsome⟩ := (repeated_exactly htwice).2 _ rfl
    obtain ⟨answer, hanswer⟩ := hsome.2 (by decide)
    obtain ⟨ys, rfl, hlength, -⟩ := hvalue answer hanswer
    exact ⟨ys, hanswer, Int.ofNat.inj hlength⟩
  · intro hsome
    exact absurd (((repeated_exactly hvast).2 _ rfl).2.1 hsome) (by decide)

end Quasiquote.Host
