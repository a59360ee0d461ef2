import Mathlib.Algebra.BigOperators.Intervals
import Quasiquote.Native.HandleTable

/-!
# Giving references up

The count of an object is the number of references to it: those from outside the heap and those that live
objects hold. An object whose last reference is given up is freed, which gives up the references that it
holds. The account stays right through all of this.

## Main Definitions

* `Native.Counts.slots` — the references to an object that live objects hold
* `Native.Balanced` — the account of all references
* `Native.freed` — the objects that are freed while references are given up

## Main Statements

* `Native.releaseAll_balance` — giving references up keeps the account of all others
* `Native.mem_freed_iff`, `Native.nodup_freed` — what is freed is what loses its last reference, once
* `Native.releaseAll_add_count` — what freed objects held is given up with them

## Design Notes

References that are under way, such as those that are still to be given up, are counted apart from those
outside the heap. So the account of a function that works in steps is one equation, with less to give up at
every step.
-/

namespace Quasiquote.Native

variable {h : Heap} {c : Counts} {r s : Ref} {work : List Ref}

theorem eq_mk_iff {n : Nat} : r = ⟨n⟩ ↔ r.index = n := by
  cases r
  simp

/-! ### References from live objects -/

/-- **The references to an object that live objects hold:** the slots of lists, and what quoters hold. -/
def Counts.slots (c : Counts) (h : Heap) (s : Ref) : Nat :=
  ∑ i ∈ Finset.range h.size, if c ⟨i⟩ = 0 then 0 else (h.get ⟨i⟩).held.count s

/-- Two sums that differ in one place. -/
theorem sum_range_add_of_eq_off {n i : Nat} {f g : Nat → Nat} (hi : i < n)
    (hoff : ∀ j, j ≠ i → f j = g j) :
    (∑ j ∈ Finset.range n, f j) + g i = (∑ j ∈ Finset.range n, g j) + f i := by
  have hrest : ∑ j ∈ (Finset.range n).erase i, f j = ∑ j ∈ (Finset.range n).erase i, g j :=
    Finset.sum_congr rfl fun j hj => hoff j (Finset.ne_of_mem_erase hj)
  rw [← Finset.add_sum_erase _ f (Finset.mem_range.2 hi), ← Finset.add_sum_erase _ g (Finset.mem_range.2 hi),
    hrest]
  omega

namespace Counts

/-- Counts that are zero in the same places have the same live objects. -/
theorem slots_congr {d : Counts} (hcd : ∀ r, c r = 0 ↔ d r = 0) (h : Heap) (s : Ref) :
    c.slots h s = d.slots h s := by
  simp only [slots, hcd]

theorem slots_retain (hr : c r ≠ 0) (h : Heap) (s : Ref) : (c.retain r).slots h s = c.slots h s := by
  refine slots_congr (fun t => ?_) h s
  by_cases ht : t = r
  · simp [ht, retain, hr]
  · simp [retain, set_of_ne _ _ ht]

/-- An object that dies holds nothing any more. -/
theorem slots_die (hr : c r ≠ 0) (h : Heap) (s : Ref) :
    (c.set r 0).slots h s + (h.get r).held.count s = c.slots h s := by
  by_cases hlt : r.index < h.size
  · have hoff (j : Nat) (hj : j ≠ r.index) :
        (if c.set r 0 ⟨j⟩ = 0 then 0 else (h.get ⟨j⟩).held.count s) =
          if c ⟨j⟩ = 0 then 0 else (h.get ⟨j⟩).held.count s := by
      rw [set_of_ne c 0 fun heq => hj (congrArg Ref.index heq)]
    have hsum := sum_range_add_of_eq_off hlt hoff
    rw [if_neg hr, set_self, if_pos rfl, Nat.add_zero] at hsum
    exact hsum
  · rw [held_of_size_le (Nat.le_of_not_lt hlt), List.count_nil, Nat.add_zero, slots, slots]
    refine Finset.sum_congr rfl fun j hj => ?_
    have hne : (⟨j⟩ : Ref) ≠ r := by
      rintro rfl
      exact hlt (Finset.mem_range.1 hj)
    rw [set_of_ne c 0 hne]

/-- A new object is none that there was. -/
theorem set_alloc (c : Counts) {h : Heap} (hr : r.index ≠ h.size) (o : Object) (n : Nat) :
    c.set (h.alloc o).1 n r = c r :=
  set_of_ne _ _ fun heq => hr (eq_mk_iff.1 heq)

/-- A new object holds what it is made of, if it lives. -/
theorem slots_alloc (c : Counts) (h : Heap) (o : Object) (n : Nat) (s : Ref) :
    (c.set (h.alloc o).1 n).slots (h.alloc o).2 s = c.slots h s + if n = 0 then 0 else o.held.count s := by
  have hnew : (h.alloc o).1 = ⟨h.size⟩ := rfl
  have hself : (h.alloc o).2.get ⟨h.size⟩ = o := Heap.get_alloc_self h o
  rw [slots, Heap.size_alloc, Finset.sum_range_succ, hnew, set_self, hself, slots]
  congr 1
  refine Finset.sum_congr rfl fun j hj => ?_
  have hlt : j < h.size := Finset.mem_range.1 hj
  rw [← hnew, c.set_alloc (Nat.ne_of_lt hlt), Heap.get_alloc_of_lt hlt]

/-- A new item of a live list takes the place of another. -/
theorem slots_put {items : List Ref} {index : Nat} {old : Ref} (new : Ref)
    (hget : h.get r = .list items) (hr : c r ≠ 0) (hold : items[index]? = some old) (s : Ref) :
    c.slots (h.put r (.list (items.set index new))) s + [old].count s = c.slots h s + [new].count s := by
  have hlt : r.index < h.size := Heap.index_lt_of_get_ne (by simp [hget])
  have hoff (j : Nat) (hj : j ≠ r.index) :
      (if c ⟨j⟩ = 0 then 0 else ((h.put r (.list (items.set index new))).get ⟨j⟩).held.count s) =
        if c ⟨j⟩ = 0 then 0 else (h.get ⟨j⟩).held.count s := by
    rw [Heap.get_put_of_ne h fun heq => hj (congrArg Ref.index heq)]
  have hsum := sum_range_add_of_eq_off hlt hoff
  rw [if_neg hr, if_neg hr, hget, Heap.get_put_self hlt] at hsum
  have hcount : (items.set index new).count s + [old].count s = items.count s + [new].count s := by
    obtain ⟨hindex, rfl⟩ := List.getElem?_eq_some_iff.1 hold
    have hpos : items[index] = s → 0 < items.count s := fun heq =>
      List.count_pos_iff.2 (heq ▸ List.getElem_mem hindex)
    rw [List.count_set hindex, List.count_singleton, List.count_singleton]
    simp only [beq_iff_eq]
    split
    · next heq =>
      have hsome := hpos heq
      omega
    · omega
  have hheld (items : List Ref) : (Object.list items).held = items := rfl
  rw [hheld, hheld] at hsum
  rw [slots, slots, Heap.size_put]
  omega

end Counts

theorem count_cons_eq (r : Ref) (rest : List Ref) (s : Ref) :
    (r :: rest).count s = [r].count s + rest.count s := by
  rw [← List.count_append, List.singleton_append]

/-- One reference less to an object. -/
theorem Counts.set_pred (hr : c r ≠ 0) (s : Ref) : c.set r (c r - 1) s + [r].count s = c s := by
  by_cases heq : s = r
  · rw [heq, set_self, List.count_singleton_self]
    omega
  · rw [set_of_ne _ _ heq, List.count_singleton, if_neg (by simpa using Ne.symm heq)]
    rfl

/-! ### Giving references up -/

/-- **The objects that are freed while references are given up,** in their order. -/
def freed (h : Heap) (c : Counts) : List Ref → List Ref
  | [] => []
  | r :: rest =>
    if c r = 1 then r :: freed h (c.set r 0) ((h.get r).held ++ rest)
    else freed h (c.set r (c r - 1)) rest
termination_by work => c.liveHeld h h.size + work.length
decreasing_by
  · next hr => exact work_lt_of_free hr rest
  · next hr => exact work_lt_of_keep hr rest

/-- **The account of all references:** some from outside the heap, those that live objects hold, and those
that are still to be given up. -/
def Balanced (outside : Counts) (h : Heap) (c : Counts) (work : List Ref) : Prop :=
  ∀ s, c s = outside s + c.slots h s + work.count s

/-- The counts of some references. -/
def Counts.ofList (refs : List Ref) : Counts := fun r => refs.count r

@[simp] theorem Counts.ofList_nil : ofList [] = 0 := rfl

theorem Counts.ofList_append (first second : List Ref) :
    ofList (first ++ second) = ofList first + ofList second :=
  funext fun _ => List.count_append

theorem Counts.ofList_cons (r : Ref) (rest : List Ref) : ofList (r :: rest) = ofList [r] + ofList rest :=
  ofList_append [r] rest

theorem Counts.ofList_perm {first second : List Ref} (h : first.Perm second) :
    ofList first = ofList second :=
  funext h.count_eq

/-- References from outside are given up as they are counted. -/
theorem balanced_add_ofList {outside : Counts} {refs : List Ref} :
    Balanced (outside + Counts.ofList refs) h c [] ↔ Balanced outside h c refs := by
  refine forall_congr' fun s => ?_
  rw [Pi.add_apply, Counts.ofList, List.count_nil]
  omega

namespace Balanced

variable {outside : Counts} {rest : List Ref}

/-- The last reference to an object is given up, and with it those that the object holds. -/
theorem free (hc : Balanced outside h c (r :: rest)) (hr : c r = 1) :
    Balanced outside h (c.set r 0) ((h.get r).held ++ rest) := by
  intro s
  have hs := hc s
  have hdie := Counts.slots_die (show c r ≠ 0 by omega) h s
  have hpred := Counts.set_pred (show c r ≠ 0 by omega) s
  rw [hr, Nat.sub_self] at hpred
  rw [count_cons_eq] at hs
  rw [List.count_append]
  omega

/-- One of several references to an object is given up. -/
theorem keep (hc : Balanced outside h c (r :: rest)) (hr : c r ≠ 1) :
    1 < c r ∧ Balanced outside h (c.set r (c r - 1)) rest := by
  have hlt : 1 < c r := by
    have hself := hc r
    rw [List.count_cons_self] at hself
    omega
  refine ⟨hlt, fun s => ?_⟩
  have hs := hc s
  have hpred := Counts.set_pred (show c r ≠ 0 by omega) s
  have hslots : (c.set r (c r - 1)).slots h s = c.slots h s := by
    refine Counts.slots_congr (fun t => ?_) h s
    by_cases ht : t = r
    · rw [ht, Counts.set_self]
      omega
    · rw [Counts.set_of_ne _ _ ht]
  rw [count_cons_eq] at hs
  omega

/-- All references from outside to an object are handed over. -/
theorem handOver {n : Nat} (hc : Balanced (outside.set r n) h c []) (hr : outside r = 0) :
    Balanced outside h c (List.replicate n r) := by
  intro s
  have hs := hc s
  rw [List.count_nil] at hs
  rw [List.count_replicate]
  by_cases heq : s = r
  · rw [heq, Counts.set_self] at hs
    rw [heq, beq_self_eq_true, if_pos rfl]
    omega
  · rw [Counts.set_of_ne _ _ heq] at hs
    rw [if_neg (by simpa using Ne.symm heq)]
    exact hs

/-- A new object takes what it is made of, and comes with references from outside. -/
theorem alloc {o : Object} {n : Nat} (hc : Balanced outside h c o.held) (hfresh : c (h.alloc o).1 = 0)
    (hlive : n = 0 → o.held = []) :
    Balanced (outside.set (h.alloc o).1 n) (h.alloc o).2 (c.set (h.alloc o).1 n) [] := by
  intro s
  have hs := hc s
  have hheld : (if n = 0 then 0 else o.held.count s) = o.held.count s := by
    split
    · next hn => rw [hlive hn, List.count_nil]
    · rfl
  rw [Counts.slots_alloc, hheld, List.count_nil]
  by_cases heq : s = (h.alloc o).1
  · subst heq
    rw [Counts.set_self, Counts.set_self]
    omega
  · rw [Counts.set_of_ne _ _ heq, Counts.set_of_ne _ _ heq]
    omega

end Balanced

theorem releaseAll_le (h : Heap) (c : Counts) (work : List Ref) (s : Ref) : releaseAll h c work s ≤ c s := by
  have hset {c : Counts} {r : Ref} {n : Nat} (hn : n ≤ c r) : c.set r n s ≤ c s := by
    unfold Counts.set
    split
    · next heq => exact heq ▸ hn
    · exact Nat.le_refl _
  induction c, work using releaseAll.induct h with
  | case1 c => rw [releaseAll]
  | case2 c r rest hr ih =>
    rw [releaseAll, if_pos hr]
    exact Nat.le_trans ih (hset (Nat.zero_le _))
  | case3 c r rest hr ih =>
    rw [releaseAll, if_neg hr]
    exact Nat.le_trans ih (hset (Nat.sub_le _ _))

/-- References are given up one after another. -/
theorem releaseAll_append (h : Heap) (c : Counts) (first second : List Ref) :
    releaseAll h c (first ++ second) = releaseAll h (releaseAll h c first) second := by
  induction c, first using releaseAll.induct h with
  | case1 c => rw [List.nil_append, releaseAll]
  | case2 c r rest hr ih =>
    rw [List.cons_append, releaseAll, releaseAll, if_pos hr, if_pos hr, ← ih, List.append_assoc]
  | case3 c r rest hr ih => rw [List.cons_append, releaseAll, releaseAll, if_neg hr, if_neg hr, ih]

/-- **Giving references up keeps the account of all others.** -/
theorem releaseAll_balance {outside : Counts} (hc : Balanced outside h c work) :
    Balanced outside h (releaseAll h c work) [] := by
  induction c, work using releaseAll.induct h with
  | case1 c =>
    rw [releaseAll]
    exact hc
  | case2 c r rest hr ih =>
    rw [releaseAll, if_pos hr]
    exact ih (hc.free hr)
  | case3 c r rest hr ih =>
    rw [releaseAll, if_neg hr]
    exact ih (hc.keep hr).2

/-- An object that gives up one reference has one less. -/
theorem releaseAll_self {outside : Counts} (hc : Balanced outside h c [r]) :
    releaseAll h c [r] r + 1 = c r := by
  have hpos := hc r
  rw [List.count_singleton_self] at hpos
  by_cases hr : c r = 1
  · have hle := releaseAll_le h (c.set r 0) ((h.get r).held ++ []) r
    rw [Counts.set_self] at hle
    rw [releaseAll, if_pos hr]
    omega
  · rw [releaseAll, if_neg hr, releaseAll, Counts.set_self]
    omega

/-- **What is freed is what loses its last reference.** -/
theorem mem_freed_iff {outside : Counts} (hc : Balanced outside h c work) :
    s ∈ freed h c work ↔ c s ≠ 0 ∧ releaseAll h c work s = 0 := by
  induction c, work using releaseAll.induct h with
  | case1 c =>
    rw [releaseAll, freed]
    simp
  | case2 c r rest hr ih =>
    have hrest := ih (hc.free hr)
    rw [releaseAll, if_pos hr, freed, if_pos hr, List.mem_cons, hrest]
    by_cases heq : s = r
    · subst heq
      have hle := releaseAll_le h (c.set s 0) ((h.get s).held ++ rest) s
      rw [Counts.set_self, Nat.le_zero] at hle
      simp [hle, hr]
    · simp [heq, Counts.set_of_ne _ _ heq]
  | case3 c r rest hr ih =>
    obtain ⟨hlt, hkeep⟩ := hc.keep hr
    rw [releaseAll, if_neg hr, freed, if_neg hr, ih hkeep]
    by_cases heq : s = r
    · subst heq
      rw [Counts.set_self]
      omega
    · rw [Counts.set_of_ne _ _ heq]

/-- No object is freed twice. -/
theorem nodup_freed {outside : Counts} (hc : Balanced outside h c work) : (freed h c work).Nodup := by
  induction c, work using releaseAll.induct h with
  | case1 c =>
    rw [freed]
    exact List.nodup_nil
  | case2 c r rest hr ih =>
    have hfree := hc.free hr
    rw [freed, if_pos hr, List.nodup_cons, mem_freed_iff hfree, Counts.set_self]
    exact ⟨fun hmem => hmem.1 rfl, ih hfree⟩
  | case3 c r rest hr ih =>
    rw [freed, if_neg hr]
    exact ih (hc.keep hr).2

/-- **What is given up:** the references that were to be given up, and those that freed objects held. -/
theorem releaseAll_add_count {outside : Counts} (hc : Balanced outside h c work) (s : Ref) :
    releaseAll h c work s + (work ++ (freed h c work).flatMap fun r => (h.get r).held).count s = c s := by
  induction c, work using releaseAll.induct h with
  | case1 c =>
    rw [releaseAll, freed]
    simp
  | case2 c r rest hr ih =>
    have hrest := ih (hc.free hr)
    have hpred := Counts.set_pred (show c r ≠ 0 by omega) s
    rw [hr, Nat.sub_self] at hpred
    rw [releaseAll, if_pos hr, freed, if_pos hr, List.flatMap_cons, List.cons_append, count_cons_eq]
    simp only [List.count_append] at hrest ⊢
    omega
  | case3 c r rest hr ih =>
    obtain ⟨hlt, hkeep⟩ := hc.keep hr
    have hrest := ih hkeep
    have hpred := Counts.set_pred (show c r ≠ 0 by omega) s
    rw [releaseAll, if_neg hr, freed, if_neg hr, List.cons_append, count_cons_eq]
    omega

end Quasiquote.Native
