import Quasiquote.Source.Literal

/-!
# Quote sites

A quote site is a piece of foreign code in a host source, and the host call that stands for it.

## Main Definitions

* `Site.Kind` — the two surface forms
* `Site` — what a site quotes, and where it stands in its source
* `Site.call` — the call that replaces it

## Design Notes

A call carries the line breaks of the text that it replaces, so that nothing behind a site changes
its line. A block's breaks follow the call; an expression's stand inside the call's parentheses,
where they end no logical line.
-/

namespace Quasiquote

/-- The two surface forms of a quote: `with $q:` with an indented block below it, and `[$q|…|]`
inside an expression. -/
inductive Site.Kind where
  | block
  | expression
deriving DecidableEq, Repr, Inhabited

namespace Site.Kind

/-- The method of a quoter that a site of this kind calls. -/
def method : Site.Kind → String
  | block => "quote_block"
  | expression => "quote_expr"

/-- The name of a kind in listings and file names. -/
def label : Site.Kind → String
  | block => "block"
  | expression => "expr"

/-- The kind with a name. -/
def ofLabel? (label : String) : Option Site.Kind :=
  if label = "block" then some block else if label = "expr" then some expression else none

@[simp] theorem ofLabel?_label (k : Site.Kind) : ofLabel? k.label = some k := by
  cases k <;> decide

end Site.Kind

/-- A recognized quote site. -/
structure Site where
  kind : Site.Kind
  /-- The host name of the quoter. -/
  quoter : String
  /-- The quoted text as it stands, indentation included. -/
  body : String
  /-- Column of the opening `with` or `[`, in characters. -/
  column : Nat
  /-- Line of the opening token. -/
  line : Nat
  /-- Line on which the body begins. -/
  bodyLine : Nat
  /-- The physical line of the opening token without its line break. -/
  sourceLine : String
  /-- The bytes of the source before the site. -/
  start : Nat
  /-- The bytes of the source up to the end of the site. -/
  stop : Nat
  /-- The line breaks inside the site. -/
  newlines : Nat
deriving DecidableEq, Repr, Inhabited

namespace Site

/-- The closing sequence of an expression site. It is fixed, so a body cannot hold it. -/
def expressionClose : String := "|]"

/-- The host call that gives a quoter its context. -/
def contextCall : String := "current_execution_context()"

/-- The call up to its closing parenthesis. -/
def openCall (s : Site) : List Char :=
  s.quoter.toList ++ '.' :: s.kind.method.toList ++ '(' :: Literal.quoteChars s.body.toList ++
    ", ".toList ++ contextCall.toList ++ ", ".toList ++ (toString s.column).toList

/-- The call that replaces the site, with the site's line breaks. -/
def callChars (s : Site) : List Char :=
  match s.kind with
  | .block => s.openCall ++ ')' :: List.replicate s.newlines '\n'
  | .expression => s.openCall ++ List.replicate s.newlines '\n' ++ [')']

/-- The call that replaces the site. -/
def call (s : Site) : String := String.ofList s.callChars

end Site

end Quasiquote
