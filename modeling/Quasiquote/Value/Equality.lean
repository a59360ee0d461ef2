import Quasiquote.Value.Heap

/-!
# Comparing host values

## Main Definitions

* `Heap.equal` — equality of values: the same object, equal numbers, equal strings, or lists of
  equal items
* `Heap.identical` — identity, under which none and the booleans have one object each
* `Heap.order?` — the order of numbers and of strings
* `Heap.references` — how many references lead to an object

## Design Notes

The program locks the two lists that it compares until all their items have been compared. A comparison that
meets one of them again further down, other than against itself, locks it twice and hangs. Here such a
comparison ends, with the answer that the items give.

Two quoter values are equal in the program if they share one quoter. Here a quoter stands behind one value
only, and two values are never equal as quoters.
-/

namespace Quasiquote

namespace Number

/-- Whether two numbers are equal. Two integers are compared exactly, all others as floats. -/
def equal : Number → Number → Bool
  | int a, int b => a == b
  | a, b => a.toFloat == b.toFloat

/-- The order of two numbers, none if one of them is not a number. -/
def order? : Number → Number → Option Ordering
  | int a, int b => some (compare a.toInt b.toInt)
  | a, b =>
    let x := a.toFloat
    let y := b.toFloat
    if x < y then some .lt else if x == y then some .eq else if y < x then some .gt else none

end Number

/-- The order of two texts: that of the first characters in which they differ. -/
def orderText : List Char → List Char → Ordering
  | [], [] => .eq
  | [], _ :: _ => .lt
  | _ :: _, [] => .gt
  | a :: as, b :: bs =>
    if a.toNat < b.toNat then .lt else if b.toNat < a.toNat then .gt else orderText as bs

namespace Heap

/-- Equality of values, to a depth. It has an answer also where the program would lock one list twice and
hang, and two quoter values are not equal even if they share one quoter in the program. -/
def equalWithin (h : Heap) : Nat → Ref → Ref → Bool
  | 0, a, b => a == b
  | depth + 1, a, b =>
    if a = b then true
    else
      match (h.get a).number?, (h.get b).number? with
      | some x, some y => x.equal y
      | _, _ =>
        match h.get a, h.get b with
        | .none, .none => true
        | .str s, .str t => s == t
        | .list xs, .list ys =>
          xs.length == ys.length && (xs.zip ys).all fun p => h.equalWithin depth p.1 p.2
        | _, _ => false

/-- Equality of values. An object always equals itself. -/
def equal (h : Heap) (a b : Ref) : Bool := h.equalWithin (h.size + 1) a b

/-- Identity of values. There is one none object, one true and one false as far as the host can
tell. -/
def identical (h : Heap) (a b : Ref) : Bool :=
  match h.get a, h.get b with
  | .none, .none => true
  | .bool x, .bool y => x == y
  | _, _ => a == b

/-- The order of two values, if they are numbers or strings that have one. -/
def order? (h : Heap) (a b : Ref) : Option Ordering :=
  match (h.get a).number?, (h.get b).number? with
  | some x, some y => x.order? y
  | _, _ =>
    match (h.get a).text?, (h.get b).text? with
    | some s, some t => some (orderText s.toList t.toList)
    | _, _ => none

/-! ### References -/

/-- The objects that can be reached, given some that have been and some that lead on. -/
def reachFrom (h : Heap) : Nat → List Ref → List Ref → List Ref
  | 0, seen, _ => seen
  | _, seen, [] => seen
  | steps + 1, seen, r :: rest =>
    if r ∈ seen then h.reachFrom steps seen rest
    else h.reachFrom steps (r :: seen) ((h.get r).held ++ rest)

/-- The references that all objects hold together. -/
def heldCount (h : Heap) : Nat := (h.objects.toList.flatMap Object.held).length

/-- The objects that can be reached from some roots. -/
def reachable (h : Heap) (roots : List Ref) : List Ref :=
  h.reachFrom (roots.length + h.heldCount + 1) [] roots

/-- The number of references to an object: those among the roots, and those that objects hold which
can be reached from the roots. -/
def references (h : Heap) (roots : List Ref) (r : Ref) : Nat :=
  roots.count r + ((h.reachable roots).flatMap fun o => (h.get o).held).count r

end Heap

end Quasiquote
