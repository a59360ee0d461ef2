import Mathlib.Tactic.Common

/-!
# Results, lists and letters

Facts about results that may be errors, about lists and about letters, that proofs about different parts
share.

## Main Definitions

* `Corresponds` — two results that are both errors, or both values

## Main Statements

* `bind_eq_ok_iff`, `seq_eq_ok_iff`, `map_eq_ok` — when a computation in steps gives a result
* `exists_last_of_mem` — a list around the last occurrence of an element
* `take_length_takeWhile`, `drop_length_takeWhile` — a list cut behind the elements of a class
* `isAlpha_range` — where the letters are
-/

namespace Quasiquote

variable {α β ε : Type}

theorem bind_eq_ok_iff {f : α → Except ε β} {result : Except ε α} {b : β} :
    result >>= f = .ok b ↔ ∃ a, result = .ok a ∧ f a = .ok b := by
  cases result with
  | error e => simp [bind, Except.bind]
  | ok a => simp [bind, Except.bind]

theorem bind_eq_ok {f : α → Except ε β} {result : Except ε α} {b : β} (h : result >>= f = .ok b) :
    ∃ a, result = .ok a ∧ f a = .ok b :=
  bind_eq_ok_iff.1 h

theorem bind_eq_error_iff {f : α → Except ε β} {result : Except ε α} {e : ε} :
    result >>= f = .error e ↔ result = .error e ∨ ∃ a, result = .ok a ∧ f a = .error e := by
  cases result with
  | error other => simp [bind, Except.bind]
  | ok a => simp [bind, Except.bind]

theorem seq_eq_ok_iff {first : Except ε Unit} {next : Except ε β} {b : β} :
    (first >>= fun _ => next) = .ok b ↔ first = .ok () ∧ next = .ok b := by
  rw [bind_eq_ok_iff]
  exact ⟨fun ⟨_, hfirst, hnext⟩ => ⟨hfirst, hnext⟩, fun ⟨hfirst, hnext⟩ => ⟨(), hfirst, hnext⟩⟩

theorem map_eq_ok {f : α → β} {result : Except ε α} {b : β} (h : result.map f = .ok b) :
    ∃ a, result = .ok a ∧ f a = b := by
  cases result with
  | error e => cases h
  | ok a => exact ⟨a, rfl, Except.ok.inj h⟩

theorem toOption_eq_some_iff {result : Except ε α} {a : α} :
    result.toOption = some a ↔ result = .ok a := by
  cases result <;> simp [Except.toOption]

/-- **Results that correspond:** two errors that do, or two values that do. -/
inductive Corresponds {γ δ : Type} (E : ε → δ → Prop) (R : α → γ → Prop) :
    Except ε α → Except δ γ → Prop
  | error {e : ε} {e' : δ} : E e e' → Corresponds E R (.error e) (.error e')
  | ok {a : α} {a' : γ} : R a a' → Corresponds E R (.ok a) (.ok a')

theorem Corresponds.mono {γ δ : Type} {E : ε → δ → Prop} {R S : α → γ → Prop} {result : Except ε α}
    {result' : Except δ γ} (h : Corresponds E R result result') (hRS : ∀ a a', R a a' → S a a') :
    Corresponds E S result result' := by
  cases h with
  | error he => exact .error he
  | ok ha => exact .ok (hRS _ _ ha)

theorem Corresponds.bind {α' β' ε' : Type} {E : ε → ε' → Prop} {R : α → α' → Prop}
    {S : β → β' → Prop} {result : Except ε α} {result' : Except ε' α'} {f : α → Except ε β}
    {f' : α' → Except ε' β'} (h : Corresponds E R result result')
    (hf : ∀ a a', R a a' → Corresponds E S (f a) (f' a')) :
    Corresponds E S (result >>= f) (result' >>= f') := by
  cases h with
  | error he => exact .error he
  | ok ha => exact hf _ _ ha

theorem Corresponds.map {α' β' ε' : Type} {E : ε → ε' → Prop} {R : α → α' → Prop}
    {S : β → β' → Prop} {result : Except ε α} {result' : Except ε' α'} {f : α → β} {f' : α' → β'}
    (h : Corresponds E R result result') (hf : ∀ a a', R a a' → S (f a) (f' a')) :
    Corresponds E S (result.map f) (result'.map f') := by
  cases h with
  | error he => exact .error he
  | ok ha => exact .ok (hf _ _ ha)

/-- A list around the last occurrence of an element. -/
theorem exists_last_of_mem {a : α} {items : List α} (h : a ∈ items) :
    ∃ front back, items = front ++ a :: back ∧ a ∉ back := by
  obtain ⟨back, front, hreverse, hback⟩ := List.eq_append_cons_of_mem (List.mem_reverse.2 h)
  refine ⟨front.reverse, back.reverse, ?_, by simpa using hback⟩
  rw [← List.reverse_reverse items, hreverse]
  simp

theorem take_length_takeWhile (p : α → Bool) (items : List α) :
    items.take (items.takeWhile p).length = items.takeWhile p :=
  (List.prefix_iff_eq_take.1 (List.takeWhile_prefix p)).symm

theorem drop_length_takeWhile (p : α → Bool) (items : List α) :
    items.drop (items.takeWhile p).length = items.dropWhile p := by
  have hdrop : (items.takeWhile p ++ items.dropWhile p).drop (items.takeWhile p).length = items.dropWhile p :=
    List.drop_left
  rwa [List.takeWhile_append_dropWhile] at hdrop

/-- The letters lie behind the digits, and are single bytes. -/
theorem isAlpha_range {c : Char} (h : c.isAlpha = true) : 57 < c.toNat ∧ c.toNat < 128 := by
  have hletter : (decide (c.val ≥ 'A'.val ∧ c.val ≤ 'Z'.val) ||
      (decide (c.val ≥ 'a'.val) && decide (c.val ≤ 'z'.val))) = true := h
  simp only [Bool.or_eq_true, Bool.and_eq_true, decide_eq_true_eq, UInt32.le_iff_toNat_le,
    ge_iff_le] at hletter
  have hvalue : c.val.toNat = c.toNat := rfl
  have hupper : 'A'.val.toNat = 65 ∧ 'Z'.val.toNat = 90 := ⟨rfl, rfl⟩
  have hlower : 'a'.val.toNat = 97 ∧ 'z'.val.toNat = 122 := ⟨rfl, rfl⟩
  omega

end Quasiquote
