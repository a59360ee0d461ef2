import Quasiquote.Native.CString
import Quasiquote.Site.Basic
import Quasiquote.Text.Lines

/-!
# Wrappers around C bodies

The C program that is compiled for a quote. The body stands inside a function that is called with a
table of host functions and with a slot for each host name that the body mentions.

## Main Definitions

* `Native.header` — the declarations at the beginning
* `Native.Origin` — where a body stands in its host source
* `Native.wrapper` — the program for a body

## Design Notes

A line directive before the body makes the compiler speak of host lines, and an expression is moved
to its host column.
-/

namespace Quasiquote.Native

/-- The version of the function table and of the entry table. -/
def interfaceVersion : Nat := 1

/-- The symbol under which a compiled body is found. -/
def entrySymbol : String := "__qq_entry"

/-- The number of a kind in an entry table. -/
def kindNumber : Site.Kind → Nat
  | .block => 0
  | .expression => 1

/-- The kind with a number. -/
def kindOfNumber? (n : Nat) : Option Site.Kind :=
  if n = 0 then some .block else if n = 1 then some .expression else none

/-- The declarations of the function table and of the entry table. -/
def header : String := Text.unlines
  ["/* Handles passed in and returned by list_get are borrowed.",
   " * none, from_*, list_new return owned handles; list_set steals its item.",
   " * A new handle assigned to a host variable is stolen by the host.",
   " * An expression body evaluates to an owned handle.",
   " * Return NULL (after qq->raise, or a failing qq call) to report an error.",
   " * str_data is not NUL-terminated; its length is stored through len.",
   " */",
   "#include <stddef.h>",
   "#include <stdint.h>",
   "",
   "typedef struct qq_object qq_object;",
   "",
   "typedef struct qq_api \x7b",
   "    unsigned int abi_version;",
   "    void (*incref)(qq_object *obj);",
   "    void (*decref)(qq_object *obj);",
   "    qq_object *(*none)(void);",
   "    int (*is_none)(qq_object *obj);",
   "    qq_object *(*from_int)(int64_t value);",
   "    int (*as_int)(qq_object *obj, int64_t *out);",
   "    qq_object *(*from_float)(double value);",
   "    int (*as_float)(qq_object *obj, double *out);",
   "    qq_object *(*from_str)(const char *data, size_t len);",
   "    const char *(*str_data)(qq_object *obj, size_t *len);",
   "    qq_object *(*list_new)(size_t len);",
   "    ptrdiff_t (*list_len)(qq_object *list);",
   "    qq_object *(*list_get)(qq_object *list, size_t index);",
   "    int (*list_set)(qq_object *list, size_t index, qq_object *item);",
   "    void (*raise)(const char *message);",
   "\x7d qq_api;",
   "",
   "typedef struct qq_entry \x7b",
   "    unsigned int abi_version;",
   "    unsigned int kind;",
   "    size_t name_count;",
   "    const char *const *names;",
   "    qq_object *(*call)(const qq_api *qq, qq_object **slots);",
   "\x7d qq_entry;"]

/-- Where a body stands in its host source. -/
structure Origin where
  file : String
  /-- The line of the body's first line. -/
  line : Nat
deriving DecidableEq, Repr

/-- The directive that tells the compiler where the next line stands. -/
def Origin.directive (o : Origin) : String :=
  "#line " ++ toString o.line ++ " " ++ CString.quote o.file ++ "\n"

/-- The items of a list, each with its place. -/
def placed {α : Type} (start : Nat) : List α → List (Nat × α)
  | [] => []
  | a :: rest => (start, a) :: placed (start + 1) rest

/-- A slot in the wrapper. -/
def slotText (k : Nat) : String := "__qq_slots[" ++ toString k ++ "]"

/-- The variables for the host names, set from their slots. -/
def declarations (names : List String) : String :=
  Text.unlines ((placed 0 names).map fun p =>
    "    qq_object *" ++ p.2 ++ " = " ++ slotText p.1 ++ ";") ++
  Text.unlines (names.map fun name => "    (void)" ++ name ++ ";")

/-- The statements that set the slots from the variables. -/
def writeBack (names : List String) : String :=
  Text.unlines ((placed 0 names).map fun p => "    " ++ slotText p.1 ++ " = " ++ p.2 ++ ";")

/-- The line that closes a block. -/
def closing (indent : String) : String := indent ++ "\x7d\n"

/-- The statements around the body of a block. -/
def blockText (body : String) (names : List String) (origin : Origin) : String :=
  "    \x7b\n" ++ origin.directive ++ body ++
    (if body.toList.getLast? = some '\n' then "" else "\n") ++ closing "    " ++ writeBack names ++
    "    return qq->none();\n"

/-- The statements around the body of an expression. -/
def expressionText (body : String) (names : List String) (origin : Origin) (column : Nat) :
    String :=
  "    __auto_type __qq_value = (\x7b\n" ++ origin.directive ++
    String.ofList (List.replicate column ' ') ++ body ++ "\n    ;\x7d);\n" ++
    "    _Static_assert(__builtin_types_compatible_p(__typeof__(__qq_value), qq_object *),\n" ++
    "                   \"a quoted C expression must have type qq_object *\");\n" ++
    writeBack names ++ "    return __qq_value;\n"

/-- The table of the declared names. -/
def nameTable (names : List String) : String :=
  "static const char *const __qq_names[] = \x7b" ++
    String.join (names.map fun name => CString.quote name ++ ", ") ++ "NULL\x7d;\n\n"

/-- The entry table. -/
def entryTable (kind : Site.Kind) (count : Nat) : String :=
  "const qq_entry " ++ entrySymbol ++ " = \x7b" ++ toString interfaceVersion ++ "u, " ++
    toString (kindNumber kind) ++ "u, " ++ toString count ++ ", __qq_names, __qq_call\x7d;\n"

/-- What follows the declarations in the program for a body. -/
def wrapperBody (kind : Site.Kind) (body : String) (names : List String) (origin : Origin)
    (column : Nat) : String :=
  "\nstatic qq_object *__qq_call(const qq_api *qq, qq_object **__qq_slots)\n\x7b\n" ++
    declarations names ++
    (match kind with
    | .block => blockText body names origin
    | .expression => expressionText body names origin column) ++
    "\x7d\n\n" ++ nameTable names ++ entryTable kind names.length

/-- The program for a body whose first line starts at a column, with the host names that it
mentions. -/
def wrapper (kind : Site.Kind) (body : String) (names : List String) (origin : Origin)
    (column : Nat) : String :=
  header ++ wrapperBody kind body names origin column

end Quasiquote.Native
