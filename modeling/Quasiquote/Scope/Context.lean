import Quasiquote.Scope.Frame

/-!
# Execution contexts

What a quoter sees of the frame in which its site runs. It reads names and stages bindings; staged
bindings reach the frame only when they are committed.

## Main Definitions

* `Context` — a frame with staged bindings
* `Context.get?`, `Context.bindings` — one visible name, and all of them
* `Context.stage`, `Context.commit` — bind names, and hand them to the frame
-/

namespace Quasiquote

/-- The view of a frame that a quoter runs against. -/
structure Context where
  frame : Frame
  /-- Bindings that have not reached the frame. -/
  pending : Bindings
  /-- The name by which the site called its quoter. -/
  quoterName : Option String
deriving Repr, Inhabited

/-- Whether a name is one of the host's own: it has two underscores at either end and something
between them. -/
def isDunder (name : String) : Bool :=
  4 < name.utf8ByteSize && ['_', '_'].isPrefixOf name.toList && ['_', '_'].isSuffixOf name.toList

namespace Context

/-- A context over a frame. The frame's mapping is brought up to date. -/
def ofFrame (f : Frame) (quoterName : Option String) : Context :=
  { frame := f.fastToLocals, pending := [], quoterName }

/-- All visible bindings, the globals first. The mapping shadows them, and staged bindings shadow
both. The host's own names are hidden. -/
def bindings (c : Context) : Bindings :=
  let visible (b : Bindings) : Bindings := b.filter fun p => !isDunder p.1
  (visible c.frame.globals).insertAll (visible (c.frame.locals ++ c.pending))

/-- The object that a name means. A staged name is seen even if it is one of the host's own. -/
def get? (c : Context) (name : String) : Option Ref :=
  (c.pending.get? name).or (if isDunder name then none else c.frame.get? name)

/-- Stage a binding. -/
def stage (c : Context) (name : String) (value : Ref) : Context :=
  { c with pending := c.pending.insert name value }

/-- Hand the staged bindings to the frame, and bring its slots up to date. -/
def commit (c : Context) : Context :=
  if c.pending.isEmpty then c
  else
    { c with
      frame := (c.pending.foldl (fun f p => f.storeLocal p.1 p.2) c.frame).localsToFast
      pending := [] }

@[simp] theorem commit_of_pending_nil {c : Context} (h : c.pending = []) : c.commit = c := by
  simp [commit, h]

@[simp] theorem get?_stage (c : Context) (n : String) (v : Ref) (name : String) :
    (c.stage n v).get? name = if name = n then some v else c.get? name := by
  simp only [stage, get?, Table.get?_insert]
  split <;> simp

end Context

end Quasiquote
