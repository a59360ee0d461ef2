import Quasiquote.Host.Eval
import Quasiquote.Quoter.Basic

/-!
# Running host code

## Main Definitions

* `Host.exec` — run statements against a context, staging what they assign
* `Quoter.host` — the quoter that runs host code

## Design Notes

A statement that fails leaves what the statements before it have staged.
-/

namespace Quasiquote

namespace Host

variable {σ : Type}

/-- A computation over the heap as a part of a run. One that fails leaves the heap alone. -/
def compute {α : Type} (c : Computation α) : Quoting σ α := do
  let s ← get
  match c s.heap with
  | .ok (a, heap) => set { s with heap }; return a
  | .error e => throw e

/-- The value of an expression in the context. -/
def evaluate (e : Expr) : Quoting σ Ref := do
  let s ← get
  compute (eval s.context.get? e)

/-- The object that a name means in the context, which must be bound. -/
def require (name : String) : Quoting σ Ref := do
  match ← Quoting.lookup name with
  | some r => return r
  | none => throw (.unbound name)

/-- Run a statement. An augmented assignment reads its name before it evaluates its operand. -/
def step : Stmt → Quoting σ Unit
  | .assign name value => do
    let r ← evaluate value
    Quoting.stage name r
  | .augAssign name op value => do
    let current ← require name
    let operand ← evaluate value
    let r ← compute (binary op current operand)
    Quoting.stage name r
  | .expr value => do
    let _ ← evaluate value
  | .pass => return

/-- Run statements, one after another. -/
def exec : List Stmt → Quoting σ Unit
  | [] => return
  | s :: rest => do
    step s
    exec rest

/-- What the host makes of text that it cannot read. -/
def readable {α : Type} : Except ParseError α → Quoting σ α
  | .ok a => return a
  | .error e => throw (.eval (.malformed e))

end Host

/-- The name that the quoter for host code goes by. -/
def Quoter.hostName : String := "py"

/-- The quoter that runs host code: statements in a block, and one expression in an expression. -/
def Quoter.host {σ : Type} : Quoter σ where
  capabilities := .both
  quoteBlock body _ := do
    let statements ← Host.readable (Host.parseStatements body)
    Host.exec statements
  quoteExpression body _ := do
    let e ← Host.readable (Host.parseExpression body)
    Host.evaluate e

end Quasiquote
