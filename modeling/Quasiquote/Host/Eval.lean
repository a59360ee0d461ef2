import Quasiquote.Host.Arithmetic
import Quasiquote.Quoter.Error
import Quasiquote.Text.Blank
import Quasiquote.Value.Equality
import Quasiquote.Value.Text

/-!
# Evaluating host expressions

## Main Definitions

* `Host.Computation` — a computation that makes objects and can fail
* `Host.binary`, `Host.unary`, `Host.compareValues`, `Host.subscript` — the operators on values
* `Host.callBuiltin` — the built-in functions
* `Host.eval` — the value of an expression

## Design Notes

An expression changes nothing but the heap, and there it only adds objects. So a failed computation
gives no heap: what it made cannot be reached. Names are looked up by a function, as expressions are
evaluated both against a frame and against a context over one.
-/

namespace Quasiquote.Host

/-- A computation over the heap. -/
abbrev Computation := StateT Heap (Except QuoteError)

/-- Fail with an error of host code. -/
def fail {α : Type} (e : EvalError) : Computation α := throw (.eval e)

/-- A new object. -/
def alloc (o : Object) : Computation Ref := fun h => .ok (h.alloc o)

/-- The object behind a reference. -/
def object (r : Ref) : Computation Object := return (← get).get r

/-- The name of a value's type. -/
def typeName (r : Ref) : Computation String := return (← object r).typeName

/-- A number as a new object. -/
def allocNumber : Number → Computation Ref
  | .int i => alloc (.int i)
  | .float f => alloc (.float f)

/-- The result of an arithmetic operation as a new object. -/
def allocResult : Except EvalError Number → Computation Ref
  | .ok n => allocNumber n
  | .error e => fail e

/-- The object that a literal denotes. -/
def Constant.object : Constant → Object
  | none => .none
  | bool b => .bool b
  | int i => .int i
  | float f => .float f
  | str s => .str s

/-! ### Operators -/

/-- The items of a list, one after another, `count` times. -/
def repeatItems {α : Type} (items : List α) (count : Nat) : List α :=
  if items.isEmpty then [] else (List.replicate count items).flatten

/-- The first `length` items of a list that is gone through again and again. -/
def cycleItems {α : Type} (items : List α) (length : Nat) : List α :=
  repeatItems items (length / items.length) ++ items.take (length % items.length)

/-- The bytes that the largest block of memory has. -/
def largestBlock : Nat := 9223372036854775807

/-- The bytes that an item takes in a list. -/
def itemSize : Nat := 8

/-- Whether a block of memory can hold a sequence of `size` bytes `count` times. -/
def fitsBlock (size count : Nat) : Bool := size * count ≤ largestBlock

/-- How often a sequence is repeated: by one of two operands that is an integer, and not at all for
a negative one. -/
def repeatCount? (left right : Object) : Option Nat :=
  (left.int?.or right.int?).map fun i => i.toInt.toNat

/-- An operator on two values. -/
def binary (op : BinaryOp) (left right : Ref) : Computation Ref := do
  let a ← object left
  let b ← object right
  let unsupported : EvalError := .unsupportedOperands op a.typeName b.typeName
  match a.number?, b.number? with
  | some x, some y =>
    match Arithmetic.binary? op x y with
    | some result => allocResult result
    | none => fail unsupported
  | _, _ =>
    match op, a.text?, b.text?, a.items?, b.items? with
    | .add, some s, some t, _, _ => alloc (.str (s ++ t))
    | .add, _, _, some xs, some ys => alloc (.list (xs ++ ys))
    | .mul, s?, t?, xs?, ys? =>
      match repeatCount? a b with
      | none => fail unsupported
      | some count =>
        match s?.or t?, xs?.or ys? with
        | some s, _ =>
          if fitsBlock s.utf8ByteSize count then
            alloc (.str (String.ofList (repeatItems s.toList count)))
          else fail .tooLarge
        | none, some xs =>
          if fitsBlock (itemSize * xs.length) count then
            alloc (.list (cycleItems xs (xs.length * count)))
          else fail .tooLarge
        | none, none => fail unsupported
    | _, _, _, _, _ => fail unsupported

/-- A sign or a complement before a value. -/
def unary (op : UnaryOp) (operand : Ref) : Computation Ref := do
  let a ← object operand
  match a.number?.bind (Arithmetic.unary? op) with
  | some result => allocResult result
  | none => fail (.badOperand op a.typeName)

/-- Whether a text occurs in another. -/
def isSubstring (needle text : List Char) : Bool := (Scan.findLength needle text).isSome

/-- Whether a value is a member of a container. -/
def contains (container item : Ref) : Computation Bool := do
  let h ← get
  match h.get container with
  | .list items => return items.any fun candidate => h.equal candidate item
  | .str text =>
    match (h.get item).text? with
    | some needle => return isSubstring needle.toList text.toList
    | none => fail (.noSubstring (h.get item).typeName)
  | other => fail (.noMembers other.typeName)

/-- The order of two values, or the error of comparing them by `op`. -/
def order (op : String) (left right : Ref) : Computation Ordering := do
  let h ← get
  match h.order? left right with
  | some o => return o
  | none => fail (.unordered op (h.get left).typeName (h.get right).typeName)

/-- A comparison of two values. -/
def compareValues (op : CompareOp) (left right : Ref) : Computation Bool := do
  let h ← get
  match op with
  | .eq => return h.equal left right
  | .ne => return !h.equal left right
  | .is => return h.identical left right
  | .isNot => return !h.identical left right
  | .isIn => contains right left
  | .notIn => return !(← contains right left)
  | .lt => return (← order "<" left right).isLT
  | .le => return (← order "<=" left right).isLE
  | .gt => return (← order ">" left right).isGT
  | .ge => return (← order ">=" left right).isGE

/-- The place that an index means in a sequence. Negative ones count from the end. -/
def place? (index : Int) (length : Nat) : Option Nat :=
  let k := if index < 0 then index + length else index
  if 0 ≤ k ∧ k < length then some k.toNat else none

/-- An item of a list, or a character of a string as a string. -/
def subscript (target index : Ref) : Computation Ref := do
  let t ← object target
  let i ← object index
  match i.int? with
  | none => fail (.badIndex i.typeName)
  | some i =>
    match t with
    | .str s =>
      match (place? i.toInt s.toList.length).bind fun k => s.toList[k]? with
      | some c => alloc (.str (String.ofList [c]))
      | none => fail (.indexOutOfRange t.typeName)
    | .list items =>
      match (place? i.toInt items.length).bind fun k => items[k]? with
      | some r => return r
      | none => fail (.indexOutOfRange t.typeName)
    | other => fail (.noSubscripts other.typeName)

/-! ### Built-in functions -/

/-- The length of a string in characters, or of a list. -/
def length (r : Ref) : Computation Ref := do
  match ← object r with
  | .str s => allocResult (Arithmetic.exact s.toList.length)
  | .list items => allocResult (Arithmetic.exact items.length)
  | other => fail (.noLength other.typeName)

/-- A value as an integer. Floats lose their fraction and are held to the range of integers. -/
def toInteger (r : Ref) : Computation Ref := do
  let h ← get
  match h.get r with
  | .str s =>
    match Decimal.integer? ((Text.trim s.toList).filter (· ≠ '_')) with
    | some i => alloc (.int i)
    | none => fail (.badIntText (h.repr r))
  | other =>
    match other.number? with
    | some (.int i) => alloc (.int i)
    | some (.float f) => if f.isFinite then alloc (.int f.toInt64) else fail .overflow
    | none => fail (.badIntArgument other.typeName)

/-- A value as a float. -/
def toFloating (r : Ref) : Computation Ref := do
  let h ← get
  match h.get r with
  | .str s =>
    match Decimal.float? (Text.trim s.toList) with
    | some f => alloc (.float f)
    | none => fail (.badFloatText (h.repr r))
  | other =>
    match other.number? with
    | some n => alloc (.float n.toFloat)
    | none => fail (.badFloatArgument other.typeName)

/-- The first of some values that no later one beats. -/
def extremeOf (wins : Ordering → Bool) (best : Ref) : List Ref → Computation Ref
  | [] => return best
  | candidate :: rest => do
    if wins (← order "<" candidate best) then extremeOf wins candidate rest
    else extremeOf wins best rest

/-- The extreme of the arguments, or of the items of a single argument. -/
def extreme (function : String) (wins : Ordering → Bool) (arguments : List Ref) :
    Computation Ref := do
  let candidates ← match arguments with
    | [single] => do
      match ← object single with
      | .list items => pure items
      | other => fail (.notIterable other.typeName)
    | _ => pure arguments
  match candidates with
  | [] => fail (.emptySequence function)
  | first :: rest => extremeOf wins first rest

/-- A built-in function of one argument. -/
def builtin? (function : String) : Option (Ref → Computation Ref) :=
  match function with
  | "len" => some length
  | "str" => some fun r => do alloc (.str ((← get).str r))
  | "repr" => some fun r => do alloc (.str ((← get).repr r))
  | "bool" => some fun r => do alloc (.bool (← object r).truthy)
  | "int" => some toInteger
  | "float" => some toFloating
  | "abs" => some fun r => do
    let a ← object r
    match a.number? with
    | some n => allocResult (Arithmetic.absolute n)
    | none => fail (.badAbs a.typeName)
  | _ => none

/-- A call of a built-in function. -/
def callBuiltin (function : String) (arguments : List Ref) : Computation Ref :=
  if function = "min" then extreme function Ordering.isLT arguments
  else if function = "max" then extreme function Ordering.isGT arguments
  else
    match builtin? function with
    | none => throw (.unbound function)
    | some f =>
      match arguments with
      | [single] => f single
      | _ => fail (.wrongArity function 1 arguments.length)

/-! ### Expressions -/

mutual

/-- The value of an expression. -/
def eval (lookup : String → Option Ref) : Expr → Computation Ref
  | .const value => alloc value.object
  | .name id =>
    match lookup id with
    | some r => return r
    | none => throw (.unbound id)
  | .list items => do alloc (.list (← evalAll lookup items))
  | .unary op operand => do unary op (← eval lookup operand)
  | .binary op left right => do
    let a ← eval lookup left
    let b ← eval lookup right
    binary op a b
  | .compare first chain => do evalChain lookup (← eval lookup first) chain
  | .not operand => do
    let r ← eval lookup operand
    alloc (.bool (!(← object r).truthy))
  | .and left right => do
    let a ← eval lookup left
    if (← object a).truthy then eval lookup right else return a
  | .or left right => do
    let a ← eval lookup left
    if (← object a).truthy then return a else eval lookup right
  | .ifElse condition body orElse => do
    let c ← eval lookup condition
    if (← object c).truthy then eval lookup body else eval lookup orElse
  | .index target position => do
    let t ← eval lookup target
    let i ← eval lookup position
    subscript t i
  | .call function arguments => do callBuiltin function (← evalAll lookup arguments)

/-- The values of some expressions, from left to right. -/
def evalAll (lookup : String → Option Ref) : List Expr → Computation (List Ref)
  | [] => return []
  | e :: rest => do
    let r ← eval lookup e
    return r :: (← evalAll lookup rest)

/-- The value of a chain of comparisons behind an operand. The first one that fails ends it. -/
def evalChain (lookup : String → Option Ref) (left : Ref) :
    List (CompareOp × Expr) → Computation Ref
  | [] => alloc (.bool true)
  | (op, e) :: rest => do
    let right ← eval lookup e
    if ← compareValues op left right then evalChain lookup right rest
    else alloc (.bool false)

end

end Quasiquote.Host
