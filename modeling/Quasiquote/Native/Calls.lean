import Quasiquote.Native.HandleTable

/-!
# Calls of the function table

The calls that a body makes, with the references that it owns afterwards.

## Main Definitions

* `Native.Call` — a call of a function with its arguments
* `Native.Body` — the table, and what the body owns
* `Native.Body.step` — make a call, unless it gives up a reference that the body does not own

## Design Notes

Which references a body owns follows from its calls alone. The table does not know, and so a call
that would give up a foreign reference is refused before it is made.
-/

namespace Quasiquote.Native

/-- A call of a function of the table. -/
inductive Call where
  | incref (handle : Handle)
  | decref (handle : Handle)
  | makeNone
  | isNone (handle : Handle)
  | fromInt (value : Int64)
  | asInt (handle : Handle)
  | fromFloat (value : Float)
  | asFloat (handle : Handle)
  | fromBytes (bytes : List UInt8)
  | fromNothing (length : Nat)
  | strData (handle : Handle)
  | listNew (length : Nat)
  | listLen (handle : Handle)
  | listGet (handle : Handle) (index : Nat)
  | listSet (handle : Handle) (index : Nat) (item : Handle)
  | raise (message : List UInt8)
  | raiseNothing
  | takeError

/-- What a call gives. Nothing inside a reply stands for a failure. -/
inductive Reply where
  | done
  | handle (handle : Handle)
  | flag (value : Option Bool)
  | int (value : Option Int64)
  | float (value : Option Float)
  | bytes (value : Option (List UInt8))
  | length (value : Option Nat)
  | success (value : Bool)
  | error (message : Option String)
  /-- The call gives up a reference that the body does not own, and is not made. -/
  | refused

/-- A body between its calls. -/
structure Body where
  table : HandleTable
  /-- The references that the body owns. -/
  owned : Counts

namespace Body

/-- A body that owns nothing. -/
def ofTable (table : HandleTable) : Body := { table, owned := fun _ => 0 }

/-- The body after its table has changed. -/
def withTable (b : Body) (table : HandleTable) : Body := { b with table }

/-- The body with a reference more. -/
def gain (b : Body) (r : Ref) : Body := { b with owned := b.owned.retain r }

/-- The body with a reference less. -/
def lose (b : Body) (r : Ref) : Body := { b with owned := b.owned.set r (b.owned r - 1) }

/-- A call that makes an object. -/
def making (b : Body) (made : Ref × HandleTable) : Reply × Body :=
  (.handle (some made.1), (b.withTable made.2).gain made.1)

/-- A call that only looks. -/
def looking {α : Type} (b : Body) (reply : α → Reply) (seen : α × HandleTable) : Reply × Body :=
  (reply seen.1, b.withTable seen.2)

/-- Make a call. -/
def step (b : Body) : Call → Reply × Body
  | .incref none => (.done, b)
  | .incref (some r) => (.done, (b.withTable (b.table.incref (some r))).gain r)
  | .decref none => (.done, b)
  | .decref (some r) =>
    if b.owned r = 0 then (.refused, b)
    else (.done, (b.withTable (b.table.decref (some r))).lose r)
  | .makeNone => b.making (b.table.make .none)
  | .isNone h => b.looking .flag (b.table.isNone h)
  | .fromInt i => b.making (b.table.make (.int i))
  | .asInt h => b.looking .int (b.table.asInt h)
  | .fromFloat f => b.making (b.table.make (.float f))
  | .asFloat h => b.looking .float (b.table.asFloat h)
  | .fromBytes bytes => b.making (b.table.fromBytes bytes)
  | .fromNothing length =>
    match b.table.fromNothing length with
    | (some r, table) => b.making (r, table)
    | (none, table) => (.handle none, b.withTable table)
  | .strData h => b.looking .bytes (b.table.strData h)
  | .listNew length => b.making (b.table.listNew length)
  | .listLen h => b.looking .length (b.table.listLen h)
  | .listGet h index => b.looking .handle (b.table.listGet h index)
  | .listSet h index none => b.looking .success (b.table.listSet h index none)
  | .listSet h index (some r) =>
    if b.owned r = 0 then (.refused, b)
    else
      let (value, table) := b.table.listSet h index (some r)
      (.success value, (b.withTable table).lose r)
  | .raise message => (.done, b.withTable (b.table.raise message))
  | .raiseNothing => (.done, b.withTable b.table.raiseNothing)
  | .takeError => b.looking .error b.table.takeError

end Body

end Quasiquote.Native
