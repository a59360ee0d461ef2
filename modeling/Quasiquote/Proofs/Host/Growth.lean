import Quasiquote.Host.Eval

/-!
# Evaluation only adds objects

Host expressions make objects and change none. So what a reference leads to stays what it is, whatever is
evaluated in between; in particular an object that is a quoter stays one.

## Main Definitions

* `Heap.Extends` — a heap with objects added
* `Host.Grows` — a computation that only adds objects

## Main Statements

* `Host.Grows.bind` — computations that only add objects, one after another
* `Host.grows_binary`, `Host.grows_callBuiltin` — the operators and the built-in functions
* `Host.grows_eval` — evaluation only adds objects
-/

namespace Quasiquote

/-- A heap with objects added: every object that there was is still there, and is the same. -/
structure Heap.Extends (h g : Heap) : Prop where
  size : h.size ≤ g.size
  get : ∀ r : Ref, r.index < h.size → g.get r = h.get r

namespace Heap.Extends

theorem refl (h : Heap) : h.Extends h := ⟨Nat.le_refl _, fun _ _ => rfl⟩

theorem trans {h g k : Heap} (hg : h.Extends g) (gk : g.Extends k) : h.Extends k where
  size := Nat.le_trans hg.size gk.size
  get r hr := (gk.get r (Nat.lt_of_lt_of_le hr hg.size)).trans (hg.get r hr)

theorem alloc (h : Heap) (o : Object) : h.Extends (h.alloc o).2 where
  size := by
    rw [Heap.size_alloc]
    exact Nat.le_succ _
  get _ hr := Heap.get_alloc_of_lt hr o

/-- A quoter stays the quoter that it is. A reference that leads nowhere leads to no quoter. -/
theorem quoter {h g : Heap} (hg : h.Extends g) {r : Ref} {kind : QuoterKind}
    (hr : h.get r = .quoter kind) : g.get r = .quoter kind := by
  by_cases hlt : r.index < h.size
  · rw [hg.get r hlt, hr]
  · rw [Heap.get_of_size_le (Nat.le_of_not_lt hlt)] at hr
    cases hr

end Heap.Extends

namespace Host

variable {α β : Type}

/-! ### Computations -/

/-- A computation that goes on with the result of another one. -/
theorem run_bind (m : Computation α) (f : α → Computation β) (h : Heap) :
    (m >>= f) h =
      match m h with
      | .ok (a, g) => f a g
      | .error e => .error e := by
  show Except.bind (m h) (fun p => f p.1 p.2) = _
  rcases m h with e | ⟨a, g⟩
  · rfl
  · rfl

theorem object_run (r : Ref) (h : Heap) : object r h = .ok (h.get r, h) := rfl

/-- A computation that ends has made its way through all of its steps. -/
theorem bind_eq_ok {m : Computation α} {f : α → Computation β} {h k : Heap} {b : β} :
    (m >>= f) h = .ok (b, k) ↔ ∃ a g, m h = .ok (a, g) ∧ f a g = .ok (b, k) := by
  rw [run_bind]
  rcases m h with e | ⟨a, g⟩
  · simp
  · refine ⟨fun hf => ⟨a, g, rfl, hf⟩, ?_⟩
    rintro ⟨_, _, ⟨⟩, hf⟩
    exact hf

/-- A computation that only adds objects. -/
def Grows (m : Computation α) : Prop := ∀ h a g, m h = .ok (a, g) → h.Extends g

theorem grows_pure (a : α) : Grows (pure a : Computation α) := by
  rintro h _ _ ⟨⟩
  exact .refl h

theorem grows_throw (e : QuoteError) : Grows (throw e : Computation α) := by
  rintro _ _ _ ⟨⟩

theorem grows_fail (e : EvalError) : Grows (fail e : Computation α) := grows_throw _

theorem grows_get : Grows (get : Computation Heap) := by
  rintro h _ _ ⟨⟩
  exact .refl h

theorem grows_alloc (o : Object) : Grows (alloc o) := by
  rintro h _ _ ⟨⟩
  exact .alloc h o

/-- **Computations that only add objects, one after another**, only add objects. -/
theorem Grows.bind {m : Computation α} {f : α → Computation β} (hm : Grows m)
    (hf : ∀ a, Grows (f a)) : Grows (m >>= f) := by
  intro h b k hrun
  obtain ⟨a, g, hfirst, hrest⟩ := bind_eq_ok.1 hrun
  exact (hm h a g hfirst).trans (hf a g b k hrest)

/-- A computation that goes on with a list, by whether there is something in it. -/
theorem Grows.bindList {m : Computation (List α)} {f : List α → Computation β} (hm : Grows m)
    (hnil : Grows (f [])) (hcons : ∀ a rest, Grows (f (a :: rest))) : Grows (m >>= f) := by
  refine hm.bind fun found => ?_
  cases found with
  | nil => exact hnil
  | cons a rest => exact hcons a rest

theorem grows_object (r : Ref) : Grows (object r) := grows_get.bind fun _ => grows_pure _

theorem grows_allocNumber (n : Number) : Grows (allocNumber n) := by
  cases n with
  | int i => exact grows_alloc _
  | float f => exact grows_alloc _

theorem grows_allocResult (r : Except EvalError Number) : Grows (allocResult r) := by
  cases r with
  | error e => exact grows_fail e
  | ok n => exact grows_allocNumber n

/-! ### Operators -/

theorem grows_binary (op : BinaryOp) (left right : Ref) : Grows (binary op left right) := by
  refine (grows_object left).bind fun a => (grows_object right).bind fun b => ?_
  dsimp only
  split
  · split
    · exact grows_allocResult _
    · exact grows_fail _
  · split
    · exact grows_alloc _
    · exact grows_alloc _
    · split
      · exact grows_fail _
      · split
        · split
          · exact grows_alloc _
          · exact grows_fail _
        · split
          · exact grows_alloc _
          · exact grows_fail _
        · exact grows_fail _
    · exact grows_fail _

theorem grows_unary (op : UnaryOp) (operand : Ref) : Grows (unary op operand) := by
  refine (grows_object operand).bind fun a => ?_
  split
  · exact grows_allocResult _
  · exact grows_fail _

theorem grows_contains (container item : Ref) : Grows (contains container item) := by
  refine grows_get.bind fun h => ?_
  split
  · exact grows_pure _
  · split
    · exact grows_pure _
    · exact grows_fail _
  · exact grows_fail _

theorem grows_order (op : String) (left right : Ref) : Grows (order op left right) := by
  refine grows_get.bind fun h => ?_
  split
  · exact grows_pure _
  · exact grows_fail _

theorem grows_compareValues (op : CompareOp) (left right : Ref) :
    Grows (compareValues op left right) := by
  refine grows_get.bind fun h => ?_
  cases op with
  | eq | ne | is | isNot => exact grows_pure _
  | isIn => exact grows_contains right left
  | notIn => exact (grows_contains right left).bind fun _ => grows_pure _
  | lt | le | gt | ge => exact (grows_order _ left right).bind fun _ => grows_pure _

theorem grows_subscript (target index : Ref) : Grows (subscript target index) := by
  refine (grows_object target).bind fun t => (grows_object index).bind fun i => ?_
  split
  · exact grows_fail _
  · split
    · split
      · exact grows_alloc _
      · exact grows_fail _
    · split
      · exact grows_pure _
      · exact grows_fail _
    · exact grows_fail _

/-! ### Built-in functions -/

theorem grows_length (r : Ref) : Grows (length r) := by
  refine (grows_object r).bind fun o => ?_
  split
  · exact grows_allocResult _
  · exact grows_allocResult _
  · exact grows_fail _

theorem grows_toInteger (r : Ref) : Grows (toInteger r) := by
  refine grows_get.bind fun h => ?_
  split
  · split
    · exact grows_alloc _
    · exact grows_fail _
  · split
    · exact grows_alloc _
    · split
      · exact grows_alloc _
      · exact grows_fail _
    · exact grows_fail _

theorem grows_toFloating (r : Ref) : Grows (toFloating r) := by
  refine grows_get.bind fun h => ?_
  split
  · split
    · exact grows_alloc _
    · exact grows_fail _
  · split
    · exact grows_alloc _
    · exact grows_fail _

theorem grows_extremeOf (wins : Ordering → Bool) (best : Ref) (candidates : List Ref) :
    Grows (extremeOf wins best candidates) := by
  induction candidates generalizing best with
  | nil => exact grows_pure best
  | cons candidate rest ih =>
    refine (grows_order "<" candidate best).bind fun o => ?_
    split
    · exact ih candidate
    · exact ih best

theorem grows_extreme (function : String) (wins : Ordering → Bool) (arguments : List Ref) :
    Grows (extreme function wins arguments) := by
  unfold extreme
  dsimp only
  split
  · refine (grows_object _).bind fun o => ?_
    split
    · exact (grows_pure _).bindList (grows_fail _) (grows_extremeOf wins)
    · exact (grows_fail _).bindList (grows_fail _) (grows_extremeOf wins)
  · exact (grows_pure _).bindList (grows_fail _) (grows_extremeOf wins)

theorem grows_builtin {function : String} {f : Ref → Computation Ref}
    (h : builtin? function = some f) (r : Ref) : Grows (f r) := by
  unfold builtin? at h
  split at h
  · cases h
    exact grows_length r
  · cases h
    exact grows_get.bind fun _ => grows_alloc _
  · cases h
    exact grows_get.bind fun _ => grows_alloc _
  · cases h
    exact (grows_object r).bind fun _ => grows_alloc _
  · cases h
    exact grows_toInteger r
  · cases h
    exact grows_toFloating r
  · cases h
    refine (grows_object r).bind fun a => ?_
    split
    · exact grows_allocResult _
    · exact grows_fail _
  · cases h

theorem grows_callBuiltin (function : String) (arguments : List Ref) :
    Grows (callBuiltin function arguments) := by
  unfold callBuiltin
  split
  · exact grows_extreme _ _ arguments
  · split
    · exact grows_extreme _ _ arguments
    · split
      · exact grows_throw _
      · next hf =>
        split
        · exact grows_builtin hf _
        · exact grows_fail _

/-! ### Expressions -/

mutual

/-- **Evaluation only adds objects.** -/
theorem grows_eval (lookup : String → Option Ref) (e : Expr) : Grows (eval lookup e) := by
  cases e with
  | const value => exact grows_alloc _
  | name id =>
    unfold eval
    split
    · exact grows_pure _
    · exact grows_throw _
  | list items => exact (grows_evalAll lookup items).bind fun _ => grows_alloc _
  | unary op operand => exact (grows_eval lookup operand).bind fun r => grows_unary op r
  | binary op left right =>
    exact (grows_eval lookup left).bind fun a => (grows_eval lookup right).bind fun b =>
      grows_binary op a b
  | compare first chain =>
    exact (grows_eval lookup first).bind fun r => grows_evalChain lookup r chain
  | not operand =>
    exact (grows_eval lookup operand).bind fun r => (grows_object r).bind fun _ => grows_alloc _
  | and left right =>
    refine (grows_eval lookup left).bind fun a => (grows_object a).bind fun o => ?_
    split
    · exact grows_eval lookup right
    · exact grows_pure a
  | or left right =>
    refine (grows_eval lookup left).bind fun a => (grows_object a).bind fun o => ?_
    split
    · exact grows_pure a
    · exact grows_eval lookup right
  | ifElse condition body orElse =>
    refine (grows_eval lookup condition).bind fun c => (grows_object c).bind fun o => ?_
    split
    · exact grows_eval lookup body
    · exact grows_eval lookup orElse
  | index target position =>
    exact (grows_eval lookup target).bind fun t => (grows_eval lookup position).bind fun i =>
      grows_subscript t i
  | call function arguments =>
    exact (grows_evalAll lookup arguments).bind fun rs => grows_callBuiltin function rs

theorem grows_evalAll (lookup : String → Option Ref) (items : List Expr) :
    Grows (evalAll lookup items) := by
  cases items with
  | nil => exact grows_pure _
  | cons e rest =>
    exact (grows_eval lookup e).bind fun r => (grows_evalAll lookup rest).bind fun _ => grows_pure _

theorem grows_evalChain (lookup : String → Option Ref) (left : Ref)
    (chain : List (CompareOp × Expr)) : Grows (evalChain lookup left chain) := by
  cases chain with
  | nil => exact grows_alloc _
  | cons p rest =>
    obtain ⟨op, e⟩ := p
    refine (grows_eval lookup e).bind fun right => (grows_compareValues op left right).bind fun b => ?_
    split
    · exact grows_evalChain lookup right rest
    · exact grows_alloc _

end

end Host

end Quasiquote
