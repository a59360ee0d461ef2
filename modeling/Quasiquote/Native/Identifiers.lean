/-!
# Identifiers in C code

## Main Definitions

* `identifiers` — the identifiers of a body outside comments and literals
* `referencedNames` — those that mean host bindings, in order of first use
-/

namespace Quasiquote.Native

/-- Whether an identifier can start with a character. -/
def isWordStart (c : Char) : Bool := c == '_' || c.isAlpha

/-- Whether an identifier can go on with a character. -/
def isWordPart (c : Char) : Bool := c == '_' || c.isAlphanum

/-- Whether a numeric literal can go on with a character. Suffixes are a part of it. -/
def isNumberPart (c : Char) : Bool := c == '.' || c.isAlphanum

/-- What follows a comment up to the end of its line. -/
def afterLine (code : List Char) : List Char := code.dropWhile (· ≠ '\n')

/-- What follows a comment up to its closing mark. -/
def afterComment : List Char → List Char
  | '*' :: '/' :: rest => rest
  | _ :: rest => afterComment rest
  | [] => []

/-- What follows a string or character literal. A line break ends it as its quote does, and a
backslash takes the next character with it. -/
def afterLiteral (quote : Char) : List Char → List Char
  | [] => []
  | '\\' :: _ :: rest => afterLiteral quote rest
  | c :: rest => if c = quote ∨ c = '\n' then rest else afterLiteral quote rest

theorem length_afterLine (code : List Char) : (afterLine code).length ≤ code.length :=
  (List.dropWhile_sublist _).length_le

theorem length_afterComment (code : List Char) : (afterComment code).length ≤ code.length := by
  fun_induction afterComment code <;> simp_all <;> omega

theorem length_afterLiteral (quote : Char) (code : List Char) :
    (afterLiteral quote code).length ≤ code.length := by
  fun_induction afterLiteral quote code <;> simp_all <;> omega

/-- The identifiers outside comments and literals, in order. -/
def identifiers : List Char → List (List Char)
  | [] => []
  | '/' :: '/' :: rest => identifiers (afterLine rest)
  | '/' :: '*' :: rest => identifiers (afterComment rest)
  | c :: rest =>
    if c = '"' ∨ c = '\x27' then identifiers (afterLiteral c rest)
    else if isWordStart c then
      (c :: rest.takeWhile isWordPart) :: identifiers (rest.dropWhile isWordPart)
    else if c.isDigit then identifiers (rest.dropWhile isNumberPart)
    else identifiers rest
termination_by code => code.length
decreasing_by
  · have := length_afterLine rest; simp; omega
  · have := length_afterComment rest; simp; omega
  · have := length_afterLiteral c rest; simp; omega
  · have := (List.dropWhile_sublist (l := rest) isWordPart).length_le; simp; omega
  · have := (List.dropWhile_sublist (l := rest) isNumberPart).length_le; simp; omega
  · simp

/-- The words that cannot be names in C. -/
def keywords : List String :=
  ["auto", "break", "case", "char", "const", "continue", "default", "do", "double", "else", "enum",
   "extern", "float", "for", "goto", "if", "inline", "int", "long", "register", "restrict",
   "return", "short", "signed", "sizeof", "static", "struct", "switch", "typedef", "union",
   "unsigned", "void", "volatile", "while", "_Alignas", "_Alignof", "_Atomic", "_Bool", "_Complex",
   "_Generic", "_Imaginary", "_Noreturn", "_Static_assert", "_Thread_local", "asm", "typeof",
   "__auto_type", "__typeof__", "__attribute__"]

/-- The name by which a body calls the host. -/
def tableName : String := "qq"

/-- What the names of the wrapper start with. -/
def wrapperMark : String := "__qq"

/-- Whether a body may use a name for a host binding. -/
def isDeclarable (name : String) : Bool :=
  !keywords.contains name && name != tableName && !wrapperMark.toList.isPrefixOf name.toList

/-- The items of a list without those that stand before. -/
def distinct {α : Type} [DecidableEq α] (seen : List α) : List α → List α
  | [] => []
  | a :: rest => if a ∈ seen then distinct seen rest else a :: distinct (a :: seen) rest

/-- The identifiers of a body that are bound, in order of first use. -/
def referencedNames (body : String) (isBound : String → Bool) : List String :=
  distinct []
    (((identifiers body.toList).map String.ofList).filter fun n => isDeclarable n && isBound n)

end Quasiquote.Native
