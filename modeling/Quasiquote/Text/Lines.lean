/-!
# Lines of a text

## Main Definitions

* `firstLine`, `physicalLines` — lines with their line feeds
* `lines` — lines without their line ends
* `unlines` — lines with line feeds behind them

## Main Statements

* `flatten_physicalLines` — the physical lines of a text are the text
-/

namespace Quasiquote.Text

/-- The first physical line of a text, with its line feed. -/
def firstLine : List Char → List Char
  | [] => []
  | c :: rest => if c = '\n' then [c] else c :: firstLine rest

/-- The physical lines of a text, each with its line feed. -/
def physicalLines : List Char → List (List Char)
  | [] => []
  | c :: rest =>
    if c = '\n' then [c] :: physicalLines rest
    else
      match physicalLines rest with
      | [] => [[c]]
      | line :: lines => (c :: line) :: lines

/-- The physical lines of a text are the text. -/
theorem flatten_physicalLines (text : List Char) : (physicalLines text).flatten = text := by
  induction text with
  | nil => rfl
  | cons c rest ih =>
    unfold physicalLines
    split
    · simp [ih]
    · split
      · next h => simp [h] at ih; simp [← ih]
      · next h => simp [h] at ih; simp [← ih]

/-- A physical line without the line feed at its end, and without a carriage return before that line
feed. -/
def dropLineEnd (line : List Char) : List Char :=
  match line.reverse with
  | '\n' :: '\r' :: front => front.reverse
  | '\n' :: front => front.reverse
  | _ => line

/-- A text without any line feeds and carriage returns at its end. -/
def trimLineEnds (text : List Char) : List Char :=
  (text.reverse.dropWhile fun c => c == '\n' || c == '\r').reverse

/-- The lines of a text without their line ends. -/
def lines (text : List Char) : List (List Char) := (physicalLines text).map dropLineEnd

/-- Lines of text, each with a line feed. -/
def unlines (lines : List String) : String := String.join (lines.map fun line => line ++ "\n")

@[simp] theorem physicalLines_nil : physicalLines [] = [] := rfl

@[simp] theorem lines_nil : lines [] = [] := rfl

end Quasiquote.Text
