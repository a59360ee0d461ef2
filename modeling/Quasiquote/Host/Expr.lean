/-!
# Host expressions and statements

The part of the host language that the host quoter runs: expressions over names, literals, lists,
operators and built-in functions, and the simple statements made of them.

## Main Definitions

* `Host.Expr` — expressions
* `Host.Stmt` — assignments, augmented assignments, bare expressions and `pass`
-/

namespace Quasiquote.Host

/-- The operators with two numbers or sequences as operands. -/
inductive BinaryOp where
  | add
  | sub
  | mul
  | div
  | floorDiv
  | mod
  | pow
  | bitOr
  | bitXor
  | bitAnd
  | shiftLeft
  | shiftRight
deriving DecidableEq, Repr

/-- The operators that compare two values. -/
inductive CompareOp where
  | lt
  | le
  | gt
  | ge
  | eq
  | ne
  | isIn
  | notIn
  | is
  | isNot
deriving DecidableEq, Repr

/-- The operators with one number as operand. -/
inductive UnaryOp where
  | neg
  | pos
  | invert
deriving DecidableEq, Repr

/-- The values that a literal can denote. -/
inductive Constant where
  | none
  | bool (value : Bool)
  | int (value : Int64)
  | float (value : Float)
  | str (value : String)
deriving Repr

/-- Host expressions. A comparison holds its first operand and the chain behind it. -/
inductive Expr where
  | const (value : Constant)
  | name (id : String)
  | list (items : List Expr)
  | unary (op : UnaryOp) (operand : Expr)
  | binary (op : BinaryOp) (left right : Expr)
  | compare (first : Expr) (chain : List (CompareOp × Expr))
  | not (operand : Expr)
  | and (left right : Expr)
  | or (left right : Expr)
  | ifElse (condition body orElse : Expr)
  | index (target position : Expr)
  | call (function : String) (arguments : List Expr)
deriving Repr

/-- Host statements. -/
inductive Stmt where
  | assign (name : String) (value : Expr)
  | augAssign (name : String) (op : BinaryOp) (value : Expr)
  | expr (value : Expr)
  | pass
deriving Repr

namespace BinaryOp

/-- The operator as it is written. -/
def symbol : BinaryOp → String
  | add => "+"
  | sub => "-"
  | mul => "*"
  | div => "/"
  | floorDiv => "//"
  | mod => "%"
  | pow => "**"
  | bitOr => "|"
  | bitXor => "^"
  | bitAnd => "&"
  | shiftLeft => "<<"
  | shiftRight => ">>"

/-- How tightly an operator binds its operands. Powers bind tighter than all others and from the
right; they are not among the operators of `ofSymbol?`. -/
def strength : BinaryOp → Nat
  | bitOr => 1
  | bitXor => 2
  | bitAnd => 3
  | shiftLeft => 4
  | shiftRight => 4
  | add => 5
  | sub => 5
  | mul => 6
  | div => 6
  | floorDiv => 6
  | mod => 6
  | pow => 7

/-- The operators that associate to the left. -/
def leftAssociative : List BinaryOp :=
  [bitOr, bitXor, bitAnd, shiftLeft, shiftRight, add, sub, mul, div, floorDiv, mod]

/-- The left-associative operator with a symbol. -/
def ofSymbol? (symbol : String) : Option BinaryOp :=
  leftAssociative.find? fun op => op.symbol == symbol

/-- The operator of an augmented assignment: its symbol with an equals sign behind it. -/
def ofAugmented? (symbol : String) : Option BinaryOp :=
  (leftAssociative ++ [pow]).find? fun op => op.symbol ++ "=" == symbol

end BinaryOp

namespace UnaryOp

/-- The operator as it is written. -/
def symbol : UnaryOp → String
  | neg => "-"
  | pos => "+"
  | invert => "~"

end UnaryOp

namespace CompareOp

/-- The operator as it is written. -/
def symbol : CompareOp → String
  | lt => "<"
  | le => "<="
  | gt => ">"
  | ge => ">="
  | eq => "=="
  | ne => "!="
  | isIn => "in"
  | notIn => "not in"
  | is => "is"
  | isNot => "is not"

end CompareOp

/-- The words that cannot be names. -/
def keywords : List String :=
  ["and", "or", "not", "in", "is", "if", "else", "pass", "lambda", "for", "while", "def", "class",
   "return", "with", "import", "from", "del", "global"]

/-- Whether a word cannot be a name. -/
def isKeyword (word : String) : Bool := keywords.contains word

end Quasiquote.Host
