import Quasiquote.Host.Parser
import Quasiquote.Proofs.Source.Parallel

/-!
# The grammar of host expressions

From loose to tight: the conditional `a if c else b`, `or`, `and`, `not`, chains of comparisons, `|`,
`^`, `&`, shifts, `+ -`, `* / // %`, signs, `**`, and subscripts and calls. The operators associate to
the left, but for powers; an exponent may have a sign.

## Main Definitions

* `Host.Level` — how tightly the parts of an expression are bound
* `Host.Forms` — the words of an expression of some level, and its tree

## Main Statements

* `Host.Forms.operand_mono` — a tighter operand is a looser one as well

## Design Notes

An expression is made of the kinds and the texts of its tokens; where they stand does not matter. Each
level has one rule for its own operator and one for all that is tighter, so that precedence is a matter
of which levels a rule asks for on its two sides.
-/

namespace Quasiquote.Host

/-! ### Words -/

/-- A keyword, or a name. -/
abbrev word (text : String) : Spelling := (.name, text)

/-- An operator or a bracket. -/
abbrev sign (text : String) : Spelling := (.operator, text)

/-- The words of a comparison operator. -/
def CompareOp.words : CompareOp → List Spelling
  | lt => [sign "<"]
  | le => [sign "<="]
  | gt => [sign ">"]
  | ge => [sign ">="]
  | eq => [sign "=="]
  | ne => [sign "!="]
  | isIn => [word "in"]
  | notIn => [word "not", word "in"]
  | is => [word "is"]
  | isNot => [word "is", word "not"]

/-- The text of a string literal, unless it has letters for bytes or substitutions. -/
def literalText? (literal : String) : Option String :=
  let letters := (Literal.splitLetters literal.toList).1.map Char.toLower
  if 'b' ∈ letters ∨ 'f' ∈ letters then none else (Literal.unquote literal).toOption

/-! ### Phrases -/

/-- How tightly the parts of an expression are bound, from loose to tight. -/
inductive Level where
  | conditional
  | disjunction
  | conjunction
  | negation
  | comparison
  /-- Operands of the left-associative operators that bind tighter than `strength`. -/
  | operand (strength : Nat)
  | unary
  | power
  | primary
  | atom
deriving DecidableEq, Repr

/-- Stretches of words with commas between them. There may be a comma behind the last one. -/
inductive Separated : List (List Spelling) → List Spelling → Prop
  | nil : Separated [] []
  | last (words : List Spelling) : Separated [words] words
  | more (words : List Spelling) {parts : List (List Spelling)} {rest : List Spelling} :
      Separated parts rest → Separated (words :: parts) (words ++ sign "," :: rest)

/-- A comparison in a chain: its operator, and the words and the tree of its right operand. -/
structure Link where
  op : CompareOp
  words : List Spelling
  operand : Expr

/-- The words of a comparison in a chain. -/
def Link.spelled (link : Link) : List Spelling := link.op.words ++ link.words

/-- A comparison in a chain, as a tree holds it. -/
def Link.pair (link : Link) : CompareOp × Expr := (link.op, link.operand)

/-- **The expressions of the host language:** these words are an expression of that level, and its tree
is this one. -/
inductive Forms : Level → List Spelling → Expr → Prop
  | ifElse {b c o : List Spelling} {body condition orElse : Expr} :
      Forms .disjunction b body → Forms .disjunction c condition → Forms .conditional o orElse →
      Forms .conditional (b ++ word "if" :: (c ++ word "else" :: o)) (.ifElse condition body orElse)
  | conditional {w : List Spelling} {e : Expr} : Forms .disjunction w e → Forms .conditional w e
  | or {l r : List Spelling} {left right : Expr} :
      Forms .disjunction l left → Forms .conjunction r right →
      Forms .disjunction (l ++ word "or" :: r) (.or left right)
  | disjunction {w : List Spelling} {e : Expr} : Forms .conjunction w e → Forms .disjunction w e
  | and {l r : List Spelling} {left right : Expr} :
      Forms .conjunction l left → Forms .negation r right →
      Forms .conjunction (l ++ word "and" :: r) (.and left right)
  | conjunction {w : List Spelling} {e : Expr} : Forms .negation w e → Forms .conjunction w e
  | not {w : List Spelling} {e : Expr} : Forms .negation w e →
      Forms .negation (word "not" :: w) (.not e)
  | negation {w : List Spelling} {e : Expr} : Forms .comparison w e → Forms .negation w e
  | compare {w : List Spelling} {first : Expr} {links : List Link} :
      Forms (.operand 0) w first → links ≠ [] →
      (∀ link ∈ links, Forms (.operand 0) link.words link.operand) →
      Forms .comparison (w ++ links.flatMap Link.spelled) (.compare first (links.map Link.pair))
  | comparison {w : List Spelling} {e : Expr} : Forms (.operand 0) w e → Forms .comparison w e
  | binary {op : BinaryOp} {strength : Nat} {l r : List Spelling} {left right : Expr} :
      op ∈ BinaryOp.leftAssociative → op.strength = strength + 1 →
      Forms (.operand strength) l left → Forms (.operand (strength + 1)) r right →
      Forms (.operand strength) (l ++ sign op.symbol :: r) (.binary op left right)
  | looser {strength : Nat} {w : List Spelling} {e : Expr} :
      Forms (.operand (strength + 1)) w e → Forms (.operand strength) w e
  | operand {w : List Spelling} {e : Expr} : Forms .unary w e → Forms (.operand 6) w e
  | signed (op : UnaryOp) {w : List Spelling} {e : Expr} : Forms .unary w e →
      Forms .unary (sign op.symbol :: w) (.unary op e)
  | unary {w : List Spelling} {e : Expr} : Forms .power w e → Forms .unary w e
  | raised {b r : List Spelling} {base exponent : Expr} :
      Forms .primary b base → Forms .unary r exponent →
      Forms .power (b ++ sign "**" :: r) (.binary .pow base exponent)
  | power {w : List Spelling} {e : Expr} : Forms .primary w e → Forms .power w e
  | index {w p : List Spelling} {target position : Expr} :
      Forms .primary w target → Forms .conditional p position →
      Forms .primary (w ++ sign "[" :: (p ++ [sign "]"])) (.index target position)
  /-- Only a name can be called. It may stand in parentheses. -/
  | call {w inner : List Spelling} {function : String} {parts : List (List Spelling × Expr)} :
      Forms .primary w (.name function) → (∀ part ∈ parts, Forms .conditional part.1 part.2) →
      Separated (parts.map Prod.fst) inner →
      Forms .primary (w ++ sign "(" :: (inner ++ [sign ")"])) (.call function (parts.map Prod.snd))
  | primary {w : List Spelling} {e : Expr} : Forms .atom w e → Forms .primary w e
  | number {text : String} {value : Constant} : Parser.number? text = some value →
      Forms .atom [(.number, text)] (.const value)
  /-- String literals that stand side by side are one string. -/
  | strings {literals texts : List String} : literals ≠ [] →
      List.Forall₂ (fun literal text => literalText? literal = some text) literals texts →
      Forms .atom (literals.map fun literal => (.string, literal)) (.const (.str (String.join texts)))
  | true : Forms .atom [word "True"] (.const (.bool Bool.true))
  | false : Forms .atom [word "False"] (.const (.bool Bool.false))
  | none : Forms .atom [word "None"] (.const .none)
  | name {id : String} : id ∉ ["True", "False", "None"] → isKeyword id = Bool.false →
      Forms .atom [word id] (.name id)
  | parentheses {w : List Spelling} {e : Expr} : Forms .conditional w e →
      Forms .atom (sign "(" :: (w ++ [sign ")"])) e
  | list {inner : List Spelling} {parts : List (List Spelling × Expr)} :
      (∀ part ∈ parts, Forms .conditional part.1 part.2) →
      Separated (parts.map Prod.fst) inner →
      Forms .atom (sign "[" :: (inner ++ [sign "]"])) (.list (parts.map Prod.snd))

/-- **A sentence of the expression grammar.** -/
def Sentence (words : List Spelling) (tree : Expr) : Prop := Forms .conditional words tree

/-- A tighter operand is a looser one as well. -/
theorem Forms.operand_mono {j k : Nat} (hjk : j ≤ k) {w : List Spelling} {e : Expr}
    (h : Forms (.operand k) w e) : Forms (.operand j) w e := by
  induction hjk with
  | refl => exact h
  | step _ ih => exact ih h.looser

end Quasiquote.Host
