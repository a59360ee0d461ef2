import Quasiquote.Source.Lexer
import Quasiquote.Source.Literal
import Quasiquote.Host.Expr

/-!
# Reading host code

The parser of host expressions and statements. From loose to tight, an expression is a conditional,
`or`, `and`, `not`, a chain of comparisons, `|`, `^`, `&`, shifts, sums, products, a sign, a power,
and finally an atom with subscripts and calls behind it.

## Main Definitions

* `Host.GrammarFault`, `Host.ParseError` — why code cannot be read
* `Host.parseExpression` — the body of an expression site
* `Host.parseStatements` — the body of a block site

## Design Notes

The parser works on the tokens that matter: comments and line breaks that end no logical line are
left out. The rules call one another in ways that no part of the input bounds, so each takes the
depth to which it may still go; `depthFor` tokens gives more than any input needs. An expression is
read inside a pair of parentheses of its own, so that it may span lines.
-/

namespace Quasiquote.Host

/-- What is wrong with the token at which reading stopped. -/
inductive GrammarFault where
  /-- Something else was expected. -/
  | expected (what : String)
  | unexpectedIndent
  /-- Only a name can be called. -/
  | onlyNamesCall
  /-- A number that is no host literal or is out of range. -/
  | unsupportedNumber
  /-- A literal of bytes or with substitutions. -/
  | unsupportedString
  | invalidLiteral (cause : LiteralError)
deriving DecidableEq, Repr

namespace GrammarFault

/-- The fault in words. -/
def reason : GrammarFault → String
  | expected what => "expected " ++ what
  | unexpectedIndent => "unexpected indent"
  | onlyNamesCall => "only built-in functions can be called"
  | unsupportedNumber => "unsupported numeric literal"
  | unsupportedString => "bytes and f-strings are not supported"
  | invalidLiteral cause => (LexError.invalidLiteral cause).message

/-- The fault of a token where an expression should begin. -/
def expectedExpression : GrammarFault := .expected "an expression"

/-- The fault of a token where an operator should stand. -/
def expectedOperator (op : String) : GrammarFault := .expected ("`" ++ op ++ "`")

end GrammarFault

/-- Why host code cannot be read. -/
inductive ParseError where
  | lexical (cause : LexError)
  /-- A token that does not fit. Lines count without the `added` lines before the code. -/
  | grammar (fault : GrammarFault) (token : Token) (added : Nat)
deriving DecidableEq, Repr

namespace ParseError

/-- A token as messages call it. -/
def describe (t : Token) : String :=
  match t.kind with
  | .endMarker => "end of input"
  | .newline => "end of line"
  | _ => "`" ++ t.text ++ "`"

/-- The text of the error. -/
def message : ParseError → String
  | lexical cause => "invalid syntax: " ++ cause.message
  | grammar fault token added =>
    "invalid syntax at " ++ toString (token.start.line - added) ++ ":" ++
      toString (token.start.column + 1) ++ ": " ++ fault.reason ++ ", found " ++ describe token

end ParseError

namespace Parser

/-- A rule of the grammar: it reads from the tokens ahead or stops at one that does not fit. -/
abbrev Rule := StateT (List Token) (Except (GrammarFault × Token))

/-! ### Tokens -/

/-- The token behind all others. -/
def endToken : Token :=
  { kind := .endMarker, text := "", start := .origin, stop := .origin, line := "" }

/-- The next token. -/
def peek : Rule Token := do return (← get).headD endToken

/-- The token behind the next one. -/
def peekSecond : Rule Token := do return (← get).tail.headD endToken

/-- Pass over the next token. -/
def advance : Rule Unit := modify List.tail

/-- Stop at a token. -/
def stop {α : Type} (fault : GrammarFault) (token : Token) : Rule α := throw (fault, token)

/-- Stop at the next token. -/
def stopHere {α : Type} (fault : GrammarFault) : Rule α := do stop fault (← peek)

/-- Pass over the next token if it satisfies `p`, and tell whether it did. -/
def accept (p : Token → Bool) : Rule Bool := do
  if p (← peek) then
    advance
    return true
  else return false

/-- Pass over an operator, if it is the next token. -/
def acceptOperator (op : String) : Rule Bool := accept (·.isOperator op)

/-- Pass over a word, if it is the next token. -/
def acceptWord (word : String) : Rule Bool := accept (·.isName word)

/-- Pass over an operator that has to stand here. -/
def requireOperator (op : String) : Rule Unit := do
  if ← acceptOperator op then return () else stopHere (.expectedOperator op)

/-! ### Literals -/

/-- The base of a number that begins with a base mark, in lower case. -/
def base? : List Char → Option Nat
  | '0' :: 'x' :: _ => some 16
  | '0' :: 'o' :: _ => some 8
  | '0' :: 'b' :: _ => some 2
  | _ => none

/-- The value of a number's text. Underscores are left out; a point or an exponent makes it a
floating-point number. -/
def number? (text : String) : Option Constant :=
  let lower := (text.toList.filter (· ≠ '_')).map Char.toLower
  match base? lower with
  | some base => ((Decimal.natural? base (lower.drop 2)).bind fun n => Decimal.fits? n).map .int
  | none =>
    if '.' ∈ lower ∨ 'e' ∈ lower then (Decimal.float? lower).map .float
    else (Decimal.integer? lower).map .int

/-- The text of a string token. -/
def stringText (t : Token) : Rule String := do
  let letters := (Literal.splitLetters t.text.toList).1.map Char.toLower
  if 'b' ∈ letters ∨ 'f' ∈ letters then stop .unsupportedString t
  else
    match Literal.unquote t.text with
    | .ok text => return text
    | .error cause => stop (.invalidLiteral cause) t

/-- The text of the string tokens ahead, joined. -/
def moreStrings : Nat → String → Rule String
  | 0, text => return text
  | n + 1, text => do
    let t ← peek
    if t.kind = .string then
      advance
      moreStrings n (text ++ (← stringText t))
    else return text

/-! ### Expressions -/

/-- The comparison operator ahead, which may be made of two words. -/
def compareOp? : Rule (Option CompareOp) := do
  let t ← peek
  let second ← peekSecond
  let one (op : CompareOp) : Rule (Option CompareOp) := do
    advance
    return some op
  let two (op : CompareOp) : Rule (Option CompareOp) := do
    advance
    advance
    return some op
  if t.isOperator "<" then one .lt
  else if t.isOperator "<=" then one .le
  else if t.isOperator ">" then one .gt
  else if t.isOperator ">=" then one .ge
  else if t.isOperator "==" then one .eq
  else if t.isOperator "!=" then one .ne
  else if t.isName "in" then one .isIn
  else if t.isName "not" && second.isName "in" then two .notIn
  else if t.isName "is" && second.isName "not" then two .isNot
  else if t.isName "is" then one .is
  else return none

/-- The left-associative operator ahead that binds tighter than `least`. -/
def binaryOp? (least : Nat) : Rule (Option BinaryOp) := do
  let t ← peek
  if t.kind = .operator then
    match BinaryOp.ofSymbol? t.text with
    | some op =>
      if op.strength ≤ least then return none
      else
        advance
        return some op
    | none => return none
  else return none

/-- The sign ahead. -/
def unaryOp? : Rule (Option UnaryOp) := do
  if ← acceptOperator "-" then return some .neg
  else if ← acceptOperator "+" then return some .pos
  else if ← acceptOperator "~" then return some .invert
  else return none

mutual

/-- A conditional, or anything tighter. -/
def expr : Nat → Rule Expr
  | 0 => stopHere .expectedExpression
  | n + 1 => do
    let body ← orTest n
    if ← acceptWord "if" then
      let condition ← orTest n
      if ← acceptWord "else" then
        let orElse ← expr n
        return .ifElse condition body orElse
      else stopHere (.expectedOperator "else")
    else return body

/-- Operands of `or`. -/
def orTest : Nat → Rule Expr
  | 0 => stopHere .expectedExpression
  | n + 1 => do orTail n (← andTest n)

/-- What follows the operands of `or` read so far. -/
def orTail : Nat → Expr → Rule Expr
  | 0, _ => stopHere .expectedExpression
  | n + 1, left => do
    if ← acceptWord "or" then
      let right ← andTest n
      orTail n (.or left right)
    else return left

/-- Operands of `and`. -/
def andTest : Nat → Rule Expr
  | 0 => stopHere .expectedExpression
  | n + 1 => do andTail n (← notTest n)

/-- What follows the operands of `and` read so far. -/
def andTail : Nat → Expr → Rule Expr
  | 0, _ => stopHere .expectedExpression
  | n + 1, left => do
    if ← acceptWord "and" then
      let right ← notTest n
      andTail n (.and left right)
    else return left

/-- A negation, or anything tighter. -/
def notTest : Nat → Rule Expr
  | 0 => stopHere .expectedExpression
  | n + 1 => do
    if ← acceptWord "not" then return .not (← notTest n)
    else comparison n

/-- A chain of comparisons, or a single operand. -/
def comparison : Nat → Rule Expr
  | 0 => stopHere .expectedExpression
  | n + 1 => do
    let first ← binary n 0
    let chain ← compareTail n
    if chain.isEmpty then return first else return .compare first chain

/-- The comparisons that follow. -/
def compareTail : Nat → Rule (List (CompareOp × Expr))
  | 0 => stopHere .expectedExpression
  | n + 1 => do
    match ← compareOp? with
    | none => return []
    | some op =>
      let right ← binary n 0
      return (op, right) :: (← compareTail n)

/-- Operands of the left-associative operators that bind tighter than `least`. -/
def binary : Nat → Nat → Rule Expr
  | 0, _ => stopHere .expectedExpression
  | n + 1, least => do binaryTail n least (← unary n)

/-- What follows the operands read so far. -/
def binaryTail : Nat → Nat → Expr → Rule Expr
  | 0, _, _ => stopHere .expectedExpression
  | n + 1, least, left => do
    match ← binaryOp? least with
    | none => return left
    | some op =>
      let right ← binary n op.strength
      binaryTail n least (.binary op left right)

/-- A sign, or anything tighter. -/
def unary : Nat → Rule Expr
  | 0 => stopHere .expectedExpression
  | n + 1 => do
    match ← unaryOp? with
    | some op => return .unary op (← unary n)
    | none => power n

/-- A power. Its exponent may have a sign. -/
def power : Nat → Rule Expr
  | 0 => stopHere .expectedExpression
  | n + 1 => do
    let base ← trailers n (← atom n)
    if ← acceptOperator "**" then return .binary .pow base (← unary n)
    else return base

/-- The subscripts and calls behind an expression. -/
def trailers : Nat → Expr → Rule Expr
  | 0, _ => stopHere .expectedExpression
  | n + 1, target => do
    if ← acceptOperator "[" then
      let position ← expr n
      requireOperator "]"
      trailers n (.index target position)
    else if (← peek).isOperator "(" then
      match target with
      | .name function =>
        advance
        let arguments ← items n ")"
        trailers n (.call function arguments)
      | _ => stopHere .onlyNamesCall
    else return target

/-- Expressions with commas between them, up to a closing bracket. A comma may stand before it. -/
def items : Nat → String → Rule (List Expr)
  | 0, _ => stopHere .expectedExpression
  | n + 1, close => do
    if ← acceptOperator close then return []
    else
      let first ← expr n
      if ← acceptOperator "," then return first :: (← items n close)
      else
        requireOperator close
        return [first]

/-- A literal, a name, an expression in parentheses or a list. -/
def atom : Nat → Rule Expr
  | 0 => stopHere .expectedExpression
  | n + 1 => do
    let t ← peek
    advance
    match t.kind with
    | .number =>
      match number? t.text with
      | some value => return .const value
      | none => stop .unsupportedNumber t
    | .string =>
      let first ← stringText t
      return .const (.str (← moreStrings n first))
    | .name =>
      if t.text = "True" then return .const (.bool true)
      else if t.text = "False" then return .const (.bool false)
      else if t.text = "None" then return .const .none
      else if isKeyword t.text then stop .expectedExpression t
      else return .name t.text
    | .operator =>
      if t.text = "(" then
        let inner ← expr n
        requireOperator ")"
        return inner
      else if t.text = "[" then return .list (← items n "]")
      else stop .expectedExpression t
    | _ => stop .expectedExpression t

end

/-! ### Statements -/

/-- A simple statement. -/
def statement (n : Nat) : Rule Stmt := do
  let first ← peek
  let second ← peekSecond
  if first.isName "pass" then
    advance
    return .pass
  else if first.kind = .name ∧ !isKeyword first.text ∧ second.kind = .operator then
    if second.text = "=" then
      advance
      advance
      return .assign first.text (← expr n)
    else
      match BinaryOp.ofAugmented? second.text with
      | some op =>
        advance
        advance
        return .augAssign first.text op (← expr n)
      | none => return .expr (← expr n)
  else return .expr (← expr n)

/-- Whether a token ends a statement line. -/
def endsStatement (t : Token) : Bool := t.kind == .newline || t.kind == .endMarker

/-- The statements behind the one just read on its line. A semicolon may end the line. -/
def moreStatements : Nat → Rule (List Stmt)
  | 0 => return []
  | n + 1 => do
    if ← acceptOperator ";" then
      if endsStatement (← peek) then return []
      else
        let next ← statement n
        return next :: (← moreStatements n)
    else return []

/-- The statements of one line. -/
def statementLine (n : Nat) : Rule (List Stmt) := do
  let first ← statement n
  let more ← moreStatements n
  if endsStatement (← peek) then return first :: more
  else stopHere (.expected "end of statement")

/-- The statements up to the end. -/
def statements : Nat → Rule (List Stmt)
  | 0 => return []
  | n + 1 => do
    let t ← peek
    match t.kind with
    | .endMarker => return []
    | .newline =>
      advance
      statements n
    | .dedent =>
      advance
      statements n
    | .indent => stop .unexpectedIndent t
    | _ =>
      let line ← statementLine n
      return line ++ (← statements n)

/-- The whole of a block's code. All of it may be indented. -/
def block (n : Nat) : Rule (List Stmt) := do
  let _ ← accept fun t => t.kind == .indent
  statements n

/-- Pass over ends of logical lines. -/
def skipNewlines : Nat → Rule Unit
  | 0 => return ()
  | n + 1 => do
    if ← accept fun t => t.kind == .newline then skipNewlines n else return ()

/-- An expression with nothing behind it. -/
def wholeExpression (n : Nat) : Rule Expr := do
  let found ← expr n
  skipNewlines n
  if ← accept fun t => t.kind == .endMarker then return found
  else stopHere (.expected "end of expression")

/-! ### Whole texts -/

/-- The tokens that the grammar is about. -/
def significant (tokens : List Token) : List Token :=
  tokens.filter fun t => !(t.kind == .comment || t.kind == .lineBreak)

/-- A depth that no code with these tokens exhausts: there are fewer rules than twenty between two
tokens. -/
def depthFor (tokens : List Token) : Nat := 20 * (tokens.length + 1)

/-- Read a whole source by a rule. -/
def parse {α : Type} (source : String) (added : Nat) (rule : Nat → Rule α) :
    Except ParseError α :=
  match tokenize source with
  | .error cause => .error (.lexical cause)
  | .ok tokens =>
    match (rule (depthFor (significant tokens))).run (significant tokens) with
    | .ok (found, _) => .ok found
    | .error (fault, token) => .error (.grammar fault token added)

end Parser

/-- The expression that the body of an expression site stands for. -/
def parseExpression (body : String) : Except ParseError Expr :=
  Parser.parse ("(\n" ++ body ++ "\n)") 1 Parser.wholeExpression

/-- The statements that the body of a block site stands for. -/
def parseStatements (body : String) : Except ParseError (List Stmt) :=
  Parser.parse body 0 Parser.block

end Quasiquote.Host
