import Quasiquote.Scope.Bindings

/-!
# Frames

A frame is the scope in which a quote site runs. The frame of a function keeps its own names in
slots and has a mapping beside them, into which the slots are copied on demand; the frame of a
module has only the globals.

## Main Definitions

* `Frame` — slots, mapping and globals
* `Frame.get?`, `Frame.set` — read and bind a name as the host does
* `Frame.fastToLocals`, `Frame.localsToFast` — copy the slots into the mapping, and back

## Design Notes

Frames of one module share its globals. A frame here holds them, and `ModuleState` hands them from
frame to frame.
-/

namespace Quasiquote

/-- The scope of a quote site. -/
structure Frame where
  moduleName : String
  filename : String
  /-- The line that is being executed. -/
  line : Nat
  /-- The names that are the function's own, some of them not bound yet. -/
  slots : Table String (Option Ref)
  /-- The mapping beside the slots. -/
  locals : Bindings
  globals : Bindings
  /-- The frame runs the body of a module. -/
  moduleLevel : Bool
deriving Repr, Inhabited

namespace Frame

/-- A frame that runs the body of a module. -/
def ofModule (moduleName filename : String) (line : Nat) : Frame :=
  { moduleName, filename, line, slots := [], locals := [], globals := [], moduleLevel := true }

/-- A frame that runs a function of the same module, with unbound slots. -/
def ofFunction (parent : Frame) (names : List String) : Frame :=
  { moduleName := parent.moduleName, filename := parent.filename, line := parent.line,
    slots := names.map fun name => (name, none), locals := [], globals := parent.globals,
    moduleLevel := false }

/-- The names of the slots. -/
def slotNames (f : Frame) : List String := f.slots.map Prod.fst

/-- The object in the slot of a name. -/
def slot? (f : Frame) (name : String) : Option Ref := (f.slots.get? name).join

/-- The object that a name means: that in its slot, in the mapping, or among the globals. -/
def get? (f : Frame) (name : String) : Option Ref :=
  (f.slot? name).or ((f.locals.get? name).or (f.globals.get? name))

/-- Slots with a name's first one bound. -/
def setSlot (name : String) (value : Ref) :
    Table String (Option Ref) → Table String (Option Ref)
  | [] => []
  | (n, v) :: rest =>
    if n = name then (n, some value) :: rest else (n, v) :: setSlot name value rest

/-- Bind a global. -/
def setGlobal (f : Frame) (name : String) (value : Ref) : Frame :=
  { f with globals := f.globals.insert name value }

/-- Bind a name in the mapping, or in the globals of a module. -/
def storeLocal (f : Frame) (name : String) (value : Ref) : Frame :=
  if f.moduleLevel then f.setGlobal name value
  else { f with locals := f.locals.insert name value }

/-- Bind a name as an assignment does. -/
def set (f : Frame) (name : String) (value : Ref) : Frame :=
  if name ∈ f.slotNames then { f with slots := setSlot name value f.slots }
  else f.storeLocal name value

/-- Copy the slots into the mapping. A name whose slot is unbound leaves the mapping. -/
def fastToLocals (f : Frame) : Frame :=
  { f with
    locals := f.slots.foldl
      (fun (b : Bindings) slot =>
        match slot.2 with
        | some value => b.insert slot.1 value
        | none => b.erase slot.1)
      f.locals }

/-- Copy the mapping into the slots of the names that it binds. -/
def localsToFast (f : Frame) : Frame :=
  { f with slots := f.slots.map fun slot => (slot.1, (f.locals.get? slot.1).or slot.2) }

end Frame

/-! ### Modules -/

/-- A module in execution: its globals and the frames that share them. The first frame runs the
module's body. -/
structure ModuleState where
  globals : Bindings
  frames : List Frame
deriving Repr

namespace ModuleState

/-- A module with the frame of its body alone. -/
def ofFrame (f : Frame) : ModuleState := { globals := f.globals, frames := [f] }

/-- A frame with the globals as they are now. -/
def frame (m : ModuleState) (index : Nat) : Frame :=
  { m.frames.getD index default with globals := m.globals }

/-- The module with another state of a frame, and of the globals that it shares. -/
def setFrame (m : ModuleState) (index : Nat) (f : Frame) : ModuleState :=
  { globals := f.globals, frames := m.frames.set index f }

/-- The module with one more frame for a function that is called from a frame. -/
def enter (m : ModuleState) (parent : Nat) (names : List String) : ModuleState :=
  { m with frames := m.frames ++ [(m.frame parent).ofFunction names] }

end ModuleState

end Quasiquote
