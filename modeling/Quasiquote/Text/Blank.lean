import Quasiquote.Text.Ranges

/-!
# Blank characters

The characters with the Unicode property `White_Space`, and the operations on text that are defined
by them: trimming and splitting into words.

## Main Definitions

* `isBlank` — the property `White_Space`
* `trim` — text without blank characters at either end
* `words` — the maximal runs of characters that are not blank
-/

namespace Quasiquote.Text

/-- The ranges of `White_Space`. -/
def blankRanges : List (Nat × Nat) :=
  [(0x9, 0xd), (0x20, 0x20), (0x85, 0x85), (0xa0, 0xa0), (0x1680, 0x1680), (0x2000, 0x200a),
   (0x2028, 0x2029), (0x202f, 0x202f), (0x205f, 0x205f), (0x3000, 0x3000)]

/-- Whether `c` has the property `White_Space`. -/
def isBlank (c : Char) : Bool := inRanges blankRanges c

/-- Text without the blank characters at its beginning. -/
def trimStart (text : List Char) : List Char := text.dropWhile isBlank

/-- Text without the blank characters at its end. -/
def trimEnd (text : List Char) : List Char := (text.reverse.dropWhile isBlank).reverse

/-- Text without the blank characters at its two ends. -/
def trim (text : List Char) : List Char := trimEnd (trimStart text)

/-- The words of a text, given the letters of the word being read, nearest first. -/
def wordsFrom (letters : List Char) : List Char → List (List Char)
  | [] => if letters.isEmpty then [] else [letters.reverse]
  | c :: rest =>
    if isBlank c then
      if letters.isEmpty then wordsFrom [] rest else letters.reverse :: wordsFrom [] rest
    else wordsFrom (c :: letters) rest

/-- The maximal runs of characters that are not blank, in order. -/
def words (text : List Char) : List (List Char) := wordsFrom [] text

@[simp] theorem trim_nil : trim [] = [] := rfl

@[simp] theorem words_nil : words [] = [] := rfl

/-- The blank characters hold core's white space. -/
theorem isBlank_of_isWhitespace {c : Char} (h : c.isWhitespace = true) : isBlank c = true := by
  simp only [Char.isWhitespace, Bool.or_eq_true, decide_eq_true_eq] at h
  rcases h with ((h | h) | h) | h <;> subst h <;> decide

end Quasiquote.Text
