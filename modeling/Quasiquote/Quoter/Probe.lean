import Quasiquote.Quoter.Basic

/-!
# Probe quoters

Small quoters that show what they are called with, and ways in which quoters can fail.

## Main Definitions

* `Quoter.probe` — the quoter for each kind of probe
-/

namespace Quasiquote

namespace Quoter

variable {σ : Type}

/-- A list of what a quoter is called with: body, column, line, module, file and quoter name. -/
def makeEcho (body : String) (column : Nat) : Quoting σ Ref := do
  let c := (← get).context
  let body ← Quoting.alloc (.str body)
  let column ← Quoting.alloc (.int (Int64.ofNat column))
  let line ← Quoting.alloc (.int (Int64.ofNat c.frame.line))
  let moduleName ← Quoting.alloc (.str c.frame.moduleName)
  let filename ← Quoting.alloc (.str c.frame.filename)
  let name ← Quoting.alloc (match c.quoterName with
    | some name => .str name
    | none => .none)
  Quoting.alloc (.list [body, column, line, moduleName, filename, name])

/-- Stage a binding and fail. -/
def stageAndFail {α : Type} (e : QuoteError) : Quoting σ α := do
  Quoting.stage "partial" (← Quoting.alloc (.int 1))
  throw e

/-- The quoter for a kind of probe. -/
def probe : Probe → Quoter σ
  | .constant value =>
    { capabilities := .only .expression
      quoteBlock := fun _ _ => Quoting.unsupported .block
      quoteExpression := fun _ _ => return value }
  | .recorder =>
    { capabilities := .only .block
      quoteBlock := fun body column => do
        let name := ((← get).context.quoterName).getD "?"
        let r ← Quoting.alloc (.str (name ++ "@" ++ toString column ++ ":" ++ body))
        Quoting.stage "seen" r
      quoteExpression := fun _ _ => Quoting.unsupported .expression }
  | .hollow =>
    { capabilities := .both
      quoteBlock := fun _ _ => Quoting.unsupported .block
      quoteExpression := fun _ _ => Quoting.unsupported .expression }
  | .inert =>
    { capabilities := .neither
      quoteBlock := fun _ _ => Quoting.unsupported .block
      quoteExpression := fun _ _ => Quoting.unsupported .expression }
  | .failing =>
    { capabilities := .both
      quoteBlock := fun _ _ => stageAndFail (.eval (.raised "boom"))
      quoteExpression := fun _ _ => stageAndFail (.badBody "bad") }
  | .echo =>
    { capabilities := .both
      quoteBlock := fun body column => do
        Quoting.stage "last" (← makeEcho body column)
      quoteExpression := fun body column => do
        let r ← makeEcho body column
        Quoting.stage "echoed" (← Quoting.alloc (.bool true))
        return r }

end Quoter

end Quasiquote
