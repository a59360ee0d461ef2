/-!
# Host values

Host values are objects with an identity. They live in a heap; names and lists hold references to
them, so a change to a list is seen through every reference.

## Main Definitions

* `Ref` — a reference to an object
* `Object` — none, booleans, integers of 64 bits, floats, strings, lists and quoters
* `Heap` — the objects that exist
* `Heap.alloc`, `Heap.setItem` — a new object, and a new item of a list

## Design Notes

A quoter in the heap is only a description, `QuoterKind`. What it does is decided where quoters are
run, by an interpretation of these descriptions, so that everything below it can be said for
arbitrary quoters.
-/

namespace Quasiquote

/-- A reference to a host object. -/
structure Ref where
  index : Nat
deriving DecidableEq, Repr, Inhabited

/-- Small quoters whose only use is to show what dispatch hands them and does with their answers. -/
inductive Probe where
  /-- An expression quoter that answers with this object. -/
  | constant (value : Ref)
  /-- A block quoter that stages what it was called with as a string. -/
  | recorder
  /-- A quoter that claims both forms and supports neither. -/
  | hollow
  /-- A quoter that claims no form. -/
  | inert
  /-- A quoter that stages a binding and fails. -/
  | failing
  /-- A quoter that makes a list of what it was called with. -/
  | echo
deriving DecidableEq, Repr

/-- The kinds of quoters. -/
inductive QuoterKind where
  /-- Runs host code. -/
  | host
  /-- Quotes the contents of a file through another quoter. -/
  | fromFile (inner : QuoterKind)
  /-- Compiles its body. The number tells the installation's native quoters apart. -/
  | native (number : Nat)
  | probe (p : Probe)
deriving DecidableEq, Repr, Inhabited

/-- A host object. -/
inductive Object where
  | none
  | bool (value : Bool)
  | int (value : Int64)
  | float (value : Float)
  | str (value : String)
  | list (items : List Ref)
  | quoter (kind : QuoterKind)
deriving Repr, Inhabited

/-- A number as arithmetic sees it. Booleans count as integers. -/
inductive Number where
  | int (value : Int64)
  | float (value : Float)
deriving Repr

namespace Number

/-- The number as a float, rounded to the nearest one. -/
def toFloat : Number → Float
  | int i => i.toFloat
  | float f => f

end Number

namespace Object

/-- The name of an object's type. -/
def typeName : Object → String
  | none => "NoneType"
  | bool _ => "bool"
  | int _ => "int"
  | float _ => "float"
  | str _ => "str"
  | list _ => "list"
  | quoter _ => "quoter"

/-- The object as a number, if it is one. -/
def number? : Object → Option Number
  | bool b => some (.int (if b then 1 else 0))
  | int i => some (.int i)
  | float f => some (.float f)
  | _ => Option.none

/-- The value of an integer or a boolean. -/
def int? : Object → Option Int64
  | bool b => some (if b then 1 else 0)
  | int i => some i
  | _ => Option.none

/-- The text of a string. -/
def text? : Object → Option String
  | str s => some s
  | _ => Option.none

/-- The items of a list. -/
def items? : Object → Option (List Ref)
  | list items => some items
  | _ => Option.none

/-- The kind of a quoter. -/
def quoter? : Object → Option QuoterKind
  | quoter kind => some kind
  | _ => Option.none

/-- Whether the object is the none object. -/
def isNone : Object → Bool
  | none => true
  | _ => false

/-- Whether the object counts as true. -/
def truthy : Object → Bool
  | none => false
  | bool b => b
  | int i => i != 0
  | float f => f != 0.0
  | str s => s != ""
  | list items => !items.isEmpty
  | quoter _ => true

/-- The references that the object holds. -/
def held : Object → List Ref
  | list items => items
  | quoter kind => heldBy kind
  | _ => []
where
  /-- The references that a quoter holds. -/
  heldBy : QuoterKind → List Ref
    | .fromFile inner => heldBy inner
    | .probe (.constant value) => [value]
    | _ => []

end Object

/-- The objects that exist. A reference is a place in the heap, and no place is used twice. -/
structure Heap where
  objects : Array Object
deriving Repr

namespace Heap

/-- The heap without objects. -/
def empty : Heap := ⟨#[]⟩

instance : Inhabited Heap := ⟨empty⟩

/-- The number of objects. -/
def size (h : Heap) : Nat := h.objects.size

/-- The object that a reference leads to. A reference that leads nowhere counts as one to none. -/
def get (h : Heap) (r : Ref) : Object := (h.objects[r.index]?).getD .none

/-- The heap with one more object, and the reference to it. -/
def alloc (h : Heap) (o : Object) : Ref × Heap := (⟨h.objects.size⟩, ⟨h.objects.push o⟩)

/-- The heap with another object in a place. -/
def put (h : Heap) (r : Ref) (o : Object) : Heap := ⟨h.objects.setIfInBounds r.index o⟩

/-- The items of a list, if the reference leads to one. -/
def items? (h : Heap) (r : Ref) : Option (List Ref) := (h.get r).items?

/-- An item of a list. -/
def item? (h : Heap) (r : Ref) (index : Nat) : Option Ref :=
  (h.items? r).bind fun items => items[index]?

/-- The heap with a new item of a list, and the item that was replaced. -/
def setItem? (h : Heap) (r : Ref) (index : Nat) (value : Ref) : Option (Ref × Heap) :=
  match h.items? r with
  | none => none
  | some items => (items[index]?).map fun old => (old, h.put r (.list (items.set index value)))

@[simp] theorem get_empty (r : Ref) : empty.get r = .none := by
  simp [get, empty]

/-- A new object is found under its reference. -/
@[simp] theorem get_alloc_self (h : Heap) (o : Object) : (h.alloc o).2.get (h.alloc o).1 = o := by
  simp [get, alloc]

/-- A new object changes no other. -/
theorem get_alloc_of_lt {h : Heap} {r : Ref} (hr : r.index < h.size) (o : Object) :
    (h.alloc o).2.get r = h.get r := by
  simp only [size] at hr
  simp [get, alloc, Array.getElem?_push, Nat.ne_of_lt hr]

@[simp] theorem size_alloc (h : Heap) (o : Object) : (h.alloc o).2.size = h.size + 1 := by
  simp [size, alloc]

theorem index_alloc (h : Heap) (o : Object) : (h.alloc o).1.index < (h.alloc o).2.size := by
  rw [size_alloc]
  exact Nat.lt_succ_self _

/-- Behind the end of the heap there is nothing. -/
theorem get_of_size_le {h : Heap} {r : Ref} (hr : h.size ≤ r.index) : h.get r = .none := by
  rw [get, Array.getElem?_eq_none hr]
  rfl

/-- Only references that lead somewhere lead to anything but none. -/
theorem index_lt_of_get_ne {h : Heap} {r : Ref} (hne : h.get r ≠ .none) : r.index < h.size :=
  Nat.lt_of_not_le fun hle => hne (get_of_size_le hle)

@[simp] theorem size_put (h : Heap) (r : Ref) (o : Object) : (h.put r o).size = h.size := by
  simp [put, size]

theorem get_put_self {h : Heap} {r : Ref} (hr : r.index < h.size) (o : Object) :
    (h.put r o).get r = o := by
  rw [size] at hr
  simp [put, get, hr]

/-- An object in a place is in no other. -/
theorem get_put_of_ne (h : Heap) {r s : Ref} (hne : s ≠ r) (o : Object) :
    (h.put r o).get s = h.get s := by
  have hindex : r.index ≠ s.index := fun heq => hne (by cases r; cases s; simp_all)
  simp [put, get, Array.getElem?_setIfInBounds_ne hindex]

end Heap

end Quasiquote
