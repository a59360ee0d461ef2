import Quasiquote.Value.Heap
import Quasiquote.Decimal.Shortest

/-!
# The text of host values

## Main Definitions

* `floatStyle` — how floats are written
* `quoteText` — a string as it is written
* `Heap.repr`, `Heap.str` — the two texts of a value

## Design Notes

Lists hold references, so the text of a value follows the heap. It goes no deeper than the number of
objects, which no list that does not hold itself exceeds.
-/

namespace Quasiquote

/-- Floats are written without an exponent from `1e-4` up to below `1e16`. -/
def floatStyle : Decimal.FloatStyle :=
  { leastPlain := -4, greatestPlain := 15, point := '.', exponentMark := 'e',
    infinity := "inf", notANumber := "NaN" }

/-- The quote around a text: the double one if the text has single quotes and no double ones. -/
def quoteFor (text : List Char) : Char :=
  if '\x27' ∈ text ∧ '"' ∉ text then '"' else '\x27'

/-- One character of a string between quotes. -/
def quoteTextChar (quote c : Char) : List Char :=
  if c = '\\' then ['\\', '\\']
  else if c = '\n' then ['\\', 'n']
  else if c = '\r' then ['\\', 'r']
  else if c = '\t' then ['\\', 't']
  else if c = quote then ['\\', c]
  else [c]

/-- A string as it is written. -/
def quoteText (text : String) : String :=
  let quote := quoteFor text.toList
  String.ofList (quote :: (text.toList.flatMap (quoteTextChar quote) ++ [quote]))

namespace Heap

/-- The written form of a value, to a depth. -/
def reprWithin (h : Heap) : Nat → Ref → String
  | 0, _ => ""
  | depth + 1, r =>
    match h.get r with
    | .none => "None"
    | .bool true => "True"
    | .bool false => "False"
    | .int i => toString i.toInt
    | .float f => floatStyle.render f
    | .str s => quoteText s
    | .list items => "[" ++ ", ".intercalate (items.map (h.reprWithin depth)) ++ "]"
    | .quoter _ => "<quoter>"

/-- The written form of a value. -/
def repr (h : Heap) (r : Ref) : String := h.reprWithin (h.size + 1) r

/-- The text of a value: a string's own text, and the written form of all others. -/
def str (h : Heap) (r : Ref) : String := ((h.get r).text?).getD (h.repr r)

end Heap

end Quasiquote
