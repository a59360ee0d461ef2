import Quasiquote.Table
import Quasiquote.Value.Heap

/-!
# Bindings

Names bound to objects, in the order in which they were first bound.

## Main Definitions

* `Bindings` — a table of names with their objects
-/

namespace Quasiquote

/-- Names with the objects they are bound to, in binding order. -/
abbrev Bindings := Table String Ref

end Quasiquote
