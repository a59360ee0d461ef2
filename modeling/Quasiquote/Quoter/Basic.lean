import Quasiquote.Quoter.Error
import Quasiquote.Scope.Context
import Quasiquote.Site.Basic

/-!
# Quoters

A quoter handles quoted code. It says which surface forms it handles, and it runs a body against the
scene of its site: the objects that exist, the context over the calling frame, and a world outside
the host, of which most quoters take no notice.

## Main Definitions

* `Capabilities` — the forms that a quoter handles
* `Scene`, `Quoting` — what a quoter runs against, and a run
* `Quoter` — capabilities with a method for each form
* `Quoting.lookup`, `Quoting.stage`, `Quoting.alloc` — reading a name, staging a binding, making an
  object

## Design Notes

A run that fails keeps the scene as it is at that moment. Whether what was staged before the failure
counts is decided by the caller, and dispatch drops it.
-/

namespace Quasiquote

/-- The surface forms that a quoter handles. -/
structure Capabilities where
  block : Bool
  expression : Bool
deriving DecidableEq, Repr

namespace Capabilities

/-- Both forms. -/
def both : Capabilities := ⟨true, true⟩

/-- No form. -/
def neither : Capabilities := ⟨false, false⟩

/-- A single form. -/
def only : Site.Kind → Capabilities
  | .block => ⟨true, false⟩
  | .expression => ⟨false, true⟩

/-- Whether a form is among the capabilities. -/
def has (c : Capabilities) : Site.Kind → Bool
  | .block => c.block
  | .expression => c.expression

/-- The capabilities as bits: blocks count one and expressions two. -/
def bits (c : Capabilities) : Nat := c.block.toNat + 2 * c.expression.toNat

/-- The capabilities with some bits. Others are ignored. -/
def ofBits (bits : Nat) : Capabilities := ⟨bits % 2 = 1, bits / 2 % 2 = 1⟩

/-- The method that a single capability stands for, and both for all others. -/
def method (c : Capabilities) : String :=
  match c with
  | ⟨true, false⟩ => Site.Kind.block.method
  | ⟨false, true⟩ => Site.Kind.expression.method
  | _ => Site.Kind.block.method ++ "/" ++ Site.Kind.expression.method

/-- The error that an object lacks these capabilities. -/
def unsupportedBy (c : Capabilities) (type : String) : QuoteError := .notSupported c.method type

@[simp] theorem has_only (k l : Site.Kind) : (only k).has l = decide (k = l) := by
  cases k <;> cases l <;> rfl

@[simp] theorem ofBits_bits (c : Capabilities) : ofBits c.bits = c := by
  obtain ⟨b, e⟩ := c
  cases b <;> cases e <;> rfl

end Capabilities

/-- What a quoter runs against. -/
structure Scene (σ : Type) where
  heap : Heap
  context : Context
  /-- What there is outside the host. -/
  world : σ

/-- A run of a quoter. -/
abbrev Quoting (σ : Type) := ExceptT QuoteError (StateM (Scene σ))

namespace Quoting

variable {σ : Type}

/-- The object that a name means in the context. -/
def lookup (name : String) : Quoting σ (Option Ref) := return (← get).context.get? name

/-- Stage a binding. -/
def stage (name : String) (value : Ref) : Quoting σ Unit :=
  modify fun s => { s with context := s.context.stage name value }

/-- Make a new object. -/
def alloc (o : Object) : Quoting σ Ref := do
  let s ← get
  let (r, heap) := s.heap.alloc o
  set { s with heap }
  return r

end Quoting

/-- A handler of quoted code. -/
structure Quoter (σ : Type) where
  capabilities : Capabilities
  /-- Run a block with this body at this column. -/
  quoteBlock (body : String) (column : Nat) : Quoting σ Unit
  /-- The value of an expression with this body at this column. -/
  quoteExpression (body : String) (column : Nat) : Quoting σ Ref

/-- The type name that quoters go by in errors. -/
def quoterTypeName : String := "quoter"

/-- The run of a quoter that does not handle a form. -/
def Quoting.unsupported {σ α : Type} (form : Site.Kind) : Quoting σ α :=
  throw ((Capabilities.only form).unsupportedBy quoterTypeName)

end Quasiquote
