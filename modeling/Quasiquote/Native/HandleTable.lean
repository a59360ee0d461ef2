import Quasiquote.Native.Wrapper
import Quasiquote.Text.Utf8
import Quasiquote.Value.Heap

/-!
# The function table

A compiled body works on host objects through functions that take and give handles. Objects count
the references to them and are freed when there is none left.

## Main Definitions

* `Native.Handle` — an object in the hands of a body, or nothing
* `Native.HandleTable` — the objects with their counts, and the last recorded error
* `Native.HandleTable.release` — give a reference up
* the functions of the table, from `incref` to `takeError`

## Design Notes

**Owning.** Handles that are passed to a body and those that `listGet` gives are borrowed. Those
that the making functions give come with a reference, which the body has to release or to hand on.
`listSet` takes the reference of its item over whether it succeeds or not.

A function that fails records a message and gives nothing.

Freeing an object releases the references that it holds, which may free others. Each round of
`releaseAll` gives one reference up, and the references that live objects hold bound the rounds.
-/

namespace Quasiquote.Native

/-- An object in the hands of a body, or nothing. -/
abbrev Handle := Option Ref

/-- The number of references to each object. -/
abbrev Counts := Ref → Nat

namespace Counts

/-- The counts with another one for an object. -/
def set (counts : Counts) (r : Ref) (n : Nat) : Counts := fun s => if s = r then n else counts s

/-- The counts with one more reference to an object. -/
def retain (counts : Counts) (r : Ref) : Counts := counts.set r (counts r + 1)

@[simp] theorem set_self (counts : Counts) (r : Ref) (n : Nat) : counts.set r n r = n := by
  simp [set]

theorem set_of_ne (counts : Counts) {r s : Ref} (n : Nat) (h : s ≠ r) :
    counts.set r n s = counts s := by
  simp [set, h]

/-- The references held by the live objects among the first `n` of a heap. -/
def liveHeld (h : Heap) (counts : Counts) : Nat → Nat
  | 0 => 0
  | n + 1 => liveHeld h counts n + if counts ⟨n⟩ = 0 then 0 else (h.get ⟨n⟩).held.length

/-- An object that dies no longer holds its references. -/
theorem liveHeld_set_zero (h : Heap) (counts : Counts) (r : Ref) (hr : counts r ≠ 0) (n : Nat) :
    liveHeld h (counts.set r 0) n + (if r.index < n then (h.get r).held.length else 0) =
      liveHeld h counts n := by
  induction n with
  | zero => simp [liveHeld]
  | succ n ih =>
    by_cases hn : r = ⟨n⟩
    · subst hn
      simp only [liveHeld, set_self, if_true, hr, if_false] at ih ⊢
      simp at ih ⊢
      omega
    · have hne : r.index ≠ n := fun e => hn (by cases r; simp_all)
      have hs : (⟨n⟩ : Ref) ≠ r := fun e => hn e.symm
      simp only [liveHeld, set_of_ne _ _ hs]
      by_cases hlt : r.index < n
      · simp only [hlt, if_true, Nat.lt_succ_of_lt hlt] at ih ⊢
        omega
      · have : ¬ r.index < n + 1 := by omega
        simp only [hlt, if_false, this] at ih ⊢
        omega

/-- Counts that are zero in the same places hold the same references. -/
theorem liveHeld_congr (h : Heap) {c d : Counts} (hcd : ∀ r, c r = 0 ↔ d r = 0) (n : Nat) :
    liveHeld h c n = liveHeld h d n := by
  induction n with
  | zero => rfl
  | succ n ih => simp only [liveHeld, ih, hcd]

end Counts

/-- An object behind the end of the heap holds nothing. -/
theorem held_of_size_le {h : Heap} {r : Ref} (hr : h.size ≤ r.index) : (h.get r).held = [] := by
  have : h.objects[r.index]? = none := Array.getElem?_eq_none hr
  simp [Heap.get, this, Object.held]

/-- Freeing an object leaves less to do: what it held is no longer held. -/
theorem work_lt_of_free {h : Heap} {counts : Counts} {r : Ref} (hr : counts r = 1) (rest : List Ref) :
    (counts.set r 0).liveHeld h h.size + ((h.get r).held ++ rest).length <
      counts.liveHeld h h.size + (r :: rest).length := by
  have hdie := counts.liveHeld_set_zero h r (by omega) h.size
  rw [List.length_append, List.length_cons]
  by_cases hlt : r.index < h.size
  · rw [if_pos hlt] at hdie
    omega
  · rw [if_neg hlt] at hdie
    rw [held_of_size_le (Nat.le_of_not_lt hlt), List.length_nil]
    omega

/-- Giving up a reference that is not the last leaves less to do: as much is held as before. -/
theorem work_lt_of_keep {h : Heap} {counts : Counts} {r : Ref} (hr : counts r ≠ 1) (rest : List Ref) :
    (counts.set r (counts r - 1)).liveHeld h h.size + rest.length <
      counts.liveHeld h h.size + (r :: rest).length := by
  have hsame : (counts.set r (counts r - 1)).liveHeld h h.size = counts.liveHeld h h.size := by
    refine Counts.liveHeld_congr h (fun s => ?_) _
    by_cases hs : s = r
    · subst hs
      rw [Counts.set_self]
      omega
    · rw [Counts.set_of_ne _ _ hs]
  rw [hsame, List.length_cons]
  omega

/-- The counts after some references are given up. An object that loses its last one is freed, which
gives up those that it holds. -/
def releaseAll (h : Heap) (counts : Counts) : List Ref → Counts
  | [] => counts
  | r :: rest =>
    if counts r = 1 then releaseAll h (counts.set r 0) ((h.get r).held ++ rest)
    else releaseAll h (counts.set r (counts r - 1)) rest
termination_by work => counts.liveHeld h h.size + work.length
decreasing_by
  · next hr => exact work_lt_of_free hr rest
  · next hr => exact work_lt_of_keep hr rest

/-- The objects with their counts, and the last recorded error. -/
structure HandleTable where
  heap : Heap
  counts : Counts
  error : Option String

namespace HandleTable

/-- The table over a heap with some references to its objects. -/
def ofHeap (heap : Heap) (counts : Counts) : HandleTable := { heap, counts, error := none }

/-- Record an error. -/
def fail (t : HandleTable) (message : String) : HandleTable := { t with error := some message }

/-- Record that a handle is no object. -/
def failNull (t : HandleTable) : HandleTable := t.fail "SystemError: NULL handle"

/-- Record that an object is of the wrong type. -/
def failType (t : HandleTable) (expected : String) (r : Ref) : HandleTable :=
  t.fail ("TypeError: expected " ++ expected ++ ", got " ++ (t.heap.get r).typeName)

/-- Record that a list has no such item. -/
def failIndex (t : HandleTable) (index length : Nat) : HandleTable :=
  t.fail ("IndexError: index " ++ toString index ++ " out of range for list of length " ++
    toString length)

/-- Add a reference to an object. -/
def retain (t : HandleTable) (r : Ref) : HandleTable := { t with counts := t.counts.retain r }

/-- Give a reference up. -/
def release (t : HandleTable) (r : Ref) : HandleTable :=
  { t with counts := releaseAll t.heap t.counts [r] }

/-- A new object with one reference. -/
def make (t : HandleTable) (o : Object) : Ref × HandleTable :=
  let (r, heap) := t.heap.alloc o
  (r, { t with heap, counts := t.counts.set r 1 })

/-! ### The functions -/

/-- Add a reference. -/
def incref (handle : Handle) (t : HandleTable) : HandleTable :=
  match handle with
  | some r => t.retain r
  | none => t

/-- Release a reference that the body owns. -/
def decref (handle : Handle) (t : HandleTable) : HandleTable :=
  match handle with
  | some r => t.release r
  | none => t

/-- Whether an object is the none object. -/
def isNone (handle : Handle) (t : HandleTable) : Option Bool × HandleTable :=
  match handle with
  | some r => (some (t.heap.get r).isNone, t)
  | none => (none, t.failNull)

/-- The value of an integer. -/
def asInt (handle : Handle) (t : HandleTable) : Option Int64 × HandleTable :=
  match handle with
  | none => (none, t.failNull)
  | some r =>
    match (t.heap.get r).int? with
    | some i => (some i, t)
    | none => (none, t.failType "int" r)

/-- The value of a number. -/
def asFloat (handle : Handle) (t : HandleTable) : Option Float × HandleTable :=
  match handle with
  | none => (none, t.failNull)
  | some r =>
    match (t.heap.get r).number? with
    | some n => (some n.toFloat, t)
    | none => (none, t.failType "float" r)

/-- A new string of some bytes. -/
def fromBytes (bytes : List UInt8) (t : HandleTable) : Ref × HandleTable :=
  t.make (.str (Utf8.decodeLossyString bytes))

/-- A new string of a number of bytes that are nowhere. Only the empty one can be made. -/
def fromNothing (length : Nat) (t : HandleTable) : Handle × HandleTable :=
  if length = 0 then
    let (r, t) := t.make (.str "")
    (some r, t)
  else (none, t.fail "SystemError: NULL string data")

/-- The bytes of a string. -/
def strData (handle : Handle) (t : HandleTable) : Option (List UInt8) × HandleTable :=
  match handle with
  | none => (none, t.failNull)
  | some r =>
    match (t.heap.get r).text? with
    | some s => (some (Utf8.encodeString s), t)
    | none => (none, t.failType "str" r)

/-- A new list, whose items are all one none object. -/
def listNew (length : Nat) (t : HandleTable) : Ref × HandleTable :=
  let (item, t) := t.make .none
  let t := { t with counts := t.counts.set item length }
  t.make (.list (List.replicate length item))

/-- The length of a list. -/
def listLen (handle : Handle) (t : HandleTable) : Option Nat × HandleTable :=
  match handle with
  | none => (none, t.failNull)
  | some r =>
    match t.heap.items? r with
    | some items => (some items.length, t)
    | none => (none, t.failType "list" r)

/-- An item of a list, borrowed. -/
def listGet (handle : Handle) (index : Nat) (t : HandleTable) : Handle × HandleTable :=
  match handle with
  | none => (none, t.failNull)
  | some r =>
    match t.heap.items? r with
    | none => (none, t.failType "list" r)
    | some items =>
      match items[index]? with
      | some item => (some item, t)
      | none => (none, t.failIndex index items.length)

/-- Replace an item of a list. The reference of the new item is taken over in any case. -/
def listSet (handle : Handle) (index : Nat) (item : Handle) (t : HandleTable) :
    Bool × HandleTable :=
  match item with
  | none => (false, t.fail "SystemError: NULL item")
  | some new =>
    match handle with
    | none => (false, t.failNull.release new)
    | some r =>
      match t.heap.items? r with
      | none => (false, (t.failType "list" r).release new)
      | some items =>
        match t.heap.setItem? r index new with
        | some (old, heap) => (true, { t with heap }.release old)
        | none => (false, (t.failIndex index items.length).release new)

/-- The text of a C string: its bytes up to the first zero. -/
def cText (bytes : List UInt8) : String := Utf8.decodeLossyString (bytes.takeWhile (· ≠ 0))

/-- Record an error of the body's own. -/
def raise (message : List UInt8) (t : HandleTable) : HandleTable := t.fail (cText message)

/-- Record an error without words. -/
def raiseNothing (t : HandleTable) : HandleTable := t.fail "error raised by native code"

/-- The last recorded error, which is recorded no longer. -/
def takeError (t : HandleTable) : Option String × HandleTable := (t.error, { t with error := none })

end HandleTable

end Quasiquote.Native
