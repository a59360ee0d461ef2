import Quasiquote.Native.Identifiers

/-!
# The lexical structure of C code

C code is read in two steps. A line that ends in a backslash is joined with the next one. Then the joined text
is cut into pieces, each the longest one that can stand there: comments, literals, numbers, identifiers, and
what is none of these. A character keeps the line joins before it, so that the pieces still spell the text.

## Main Definitions

* `Lexical.Glyph`, `Lexical.glyphs` — the characters of joined lines
* `Lexical.Piece`, `Lexical.pieces` — comments, literals, numbers and identifiers

## Main Statements

* `Lexical.exists_spelled_glyphs` — the characters and the line joins before them are the text
* `Lexical.munch_glyphs` — the pieces tile the text

## Design Notes

Which characters an identifier has beyond the basic ones is for an implementation to say, and a parameter here.
Directives are not told apart from other lines. So there are no header names, and a quote in one begins a
literal.
-/

namespace Quasiquote.Native.Lexical

/-! ### Joined lines -/

/-- A backslash and the line end behind it. -/
inductive LineJoin
  | lf
  | crlf
deriving DecidableEq, Repr

/-- How a line join is written. -/
def LineJoin.text : LineJoin → List Char
  | lf => ['\\', '\n']
  | crlf => ['\\', '\r', '\n']

/-- How line joins are written one after another. -/
def joinText (joins : List LineJoin) : List Char := joins.flatMap LineJoin.text

/-- A character of the joined text, and the line joins before it. -/
structure Glyph where
  lead : List LineJoin
  char : Char
deriving DecidableEq, Repr

/-- How characters and line joins are written. -/
def spelled (gs : List Glyph) : List Char := gs.flatMap fun g => joinText g.lead ++ [g.char]

/-- The joined text. -/
def joined (gs : List Glyph) : List Char := gs.map Glyph.char

/-- The characters of a text behind line joins. -/
def glyphsFrom (lead : List LineJoin) : List Char → List Glyph
  | '\\' :: '\n' :: rest => glyphsFrom (lead ++ [.lf]) rest
  | '\\' :: '\r' :: '\n' :: rest => glyphsFrom (lead ++ [.crlf]) rest
  | c :: rest => ⟨lead, c⟩ :: glyphsFrom [] rest
  | [] => []

/-- The characters of a text. Line joins at its end are before none of them. -/
def glyphs (code : List Char) : List Glyph := glyphsFrom [] code

@[simp] theorem spelled_nil : spelled [] = [] := rfl

@[simp] theorem spelled_cons (g : Glyph) (gs : List Glyph) :
    spelled (g :: gs) = joinText g.lead ++ g.char :: spelled gs := by
  simp [spelled]

@[simp] theorem spelled_append (gs gs' : List Glyph) : spelled (gs ++ gs') = spelled gs ++ spelled gs' :=
  List.flatMap_append

@[simp] theorem joined_cons (g : Glyph) (gs : List Glyph) : joined (g :: gs) = g.char :: joined gs := rfl

@[simp] theorem joinText_nil : joinText [] = [] := rfl

@[simp] theorem joinText_cons (j : LineJoin) (joins : List LineJoin) :
    joinText (j :: joins) = j.text ++ joinText joins := rfl

theorem joinText_append (joins joins' : List LineJoin) :
    joinText (joins ++ joins') = joinText joins ++ joinText joins' := List.flatMap_append

theorem mem_joinText {joins : List LineJoin} {c : Char} (h : c ∈ joinText joins) :
    c = '\\' ∨ c = '\r' ∨ c = '\n' := by
  obtain ⟨j, -, hc⟩ := List.mem_flatMap.1 h
  cases j with
  | lf =>
    have hor : c = '\\' ∨ c = '\n' := by simpa [LineJoin.text] using hc
    exact hor.imp_right .inr
  | crlf => simpa [LineJoin.text] using hc

theorem exists_spelled_glyphsFrom (lead : List LineJoin) (code : List Char) :
    ∃ trail, joinText lead ++ code = spelled (glyphsFrom lead code) ++ joinText trail := by
  fun_induction glyphsFrom lead code with
  | case1 lead rest ih =>
    obtain ⟨trail, h⟩ := ih
    exact ⟨trail, by rw [← h, joinText_append]; simp [LineJoin.text]⟩
  | case2 lead rest ih =>
    obtain ⟨trail, h⟩ := ih
    exact ⟨trail, by rw [← h, joinText_append]; simp [LineJoin.text]⟩
  | case3 lead c rest _ _ ih =>
    obtain ⟨trail, h⟩ := ih
    rw [joinText_nil, List.nil_append] at h
    exact ⟨trail, by simp [← h]⟩
  | case4 lead => exact ⟨lead, by simp⟩

/-- **The characters and their line joins** are the text, up to line joins at its end. -/
theorem exists_spelled_glyphs (code : List Char) :
    ∃ trail, code = spelled (glyphs code) ++ joinText trail :=
  exists_spelled_glyphsFrom [] code

theorem mem_spelled {gs : List Glyph} {c : Char} (h : c ∈ spelled gs) :
    (c = '\\' ∨ c = '\r' ∨ c = '\n') ∨ ∃ g ∈ gs, g.char = c := by
  obtain ⟨g, hg, hc⟩ := List.mem_flatMap.1 h
  rcases List.mem_append.1 hc with hc | hc
  · exact .inl (mem_joinText hc)
  · exact .inr ⟨g, hg, (List.mem_singleton.1 hc).symm⟩

/-- What a text begins with: a character without line joins before it, or the backslash of a line join. -/
theorem head?_spelled_append {gs : List Glyph} {trail : List LineJoin} {c : Char}
    (h : c ∈ (spelled gs ++ joinText trail).head?) :
    c = '\\' ∨ ∃ g ∈ gs.head?, g.lead = [] ∧ g.char = c := by
  have hjoins : ∀ (joins : List LineJoin) (code : List Char), joins ≠ [] →
      c ∈ (joinText joins ++ code).head? → c = '\\' := by
    rintro (_ | ⟨_ | _, joins⟩) code hne hc
    · exact absurd rfl hne
    · exact (Option.some.inj hc).symm
    · exact (Option.some.inj hc).symm
  cases gs with
  | nil =>
    by_cases hne : trail = []
    · subst hne
      cases h
    · exact .inl (hjoins trail [] hne (by simpa using h))
  | cons g gs =>
    rw [spelled_cons, List.append_assoc] at h
    by_cases hne : g.lead = []
    · rw [hne] at h
      exact .inr ⟨g, rfl, hne, Option.some.inj h⟩
    · exact .inl (hjoins g.lead _ hne h)

/-- What does not go on in the joined text does not go on in the text itself. -/
theorem stop_spelled {gs : List Glyph} {p : Char → Prop} (hjoin : p '\\') (h : ∀ g ∈ gs.head?, p g.char)
    (trail : List LineJoin) : ∀ c ∈ (spelled gs ++ joinText trail).head?, p c := by
  intro c hc
  rcases head?_spelled_append hc with rfl | ⟨g, hg, -, rfl⟩
  · exact hjoin
  · exact h g hg

/-- Lines are joined before a piece, but not within it. -/
def Unbroken (gs : List Glyph) : Prop := ∀ g ∈ gs.tail, g.lead = []

instance (gs : List Glyph) : Decidable (Unbroken gs) := inferInstanceAs (Decidable (∀ g ∈ gs.tail, g.lead = []))

/-- A text without line joins is written as it is joined. -/
theorem spelled_of_forall_lead {gs : List Glyph} (h : ∀ g ∈ gs, g.lead = []) : spelled gs = joined gs := by
  induction gs with
  | nil => rfl
  | cons g gs ih =>
    rw [spelled_cons, h g List.mem_cons_self, ih fun k hk => h k (List.mem_cons_of_mem _ hk)]
    rfl

/-! ### Pieces -/

/-- A piece of C code. What a comment or literal begins with is kept apart from its content. -/
inductive Piece
  | lineComment (mark content : List Glyph)
  | blockComment (mark content : List Glyph)
  | literal (mark content : List Glyph)
  | number (glyphs : List Glyph)
  | identifier (glyphs : List Glyph)
  | other (glyph : Glyph)
deriving DecidableEq, Repr

/-- The characters of a piece. -/
def Piece.glyphs : Piece → List Glyph
  | lineComment mark content | blockComment mark content | literal mark content => mark ++ content
  | number gs | identifier gs => gs
  | other g => [g]

/-- The name that a piece is. -/
def Piece.name? : Piece → Option String
  | identifier gs => some (String.ofList (joined gs))
  | lineComment .. | blockComment .. | literal .. | number _ | other _ => none

/-- Whether the joined text begins with a text. -/
def startsWith (text : List Char) (gs : List Glyph) : Bool := text.isPrefixOf (joined gs)

/-- Whether a character does not end its line. -/
def isInLine (g : Glyph) : Bool := g.char != '\n'

/-- How much of a text belongs to a block comment that is open: all up to its closing mark. -/
def commentLength : List Glyph → Nat
  | star :: slash :: rest =>
    if star.char = '*' ∧ slash.char = '/' then 2 else commentLength (slash :: rest) + 1
  | gs => gs.length

/-- How much of a text belongs to a literal that is open: all up to its quote, or up to the end of the line if
the quote is missing. A backslash takes the next character of the line with it. -/
def literalLength (quote : Char) : List Glyph → Nat
  | g :: h :: rest =>
    if g.char = quote ∨ g.char = '\n' then 1
    else if g.char = '\\' ∧ h.char ≠ '\n' then literalLength quote rest + 2
    else literalLength quote (h :: rest) + 1
  | gs => gs.length

/-- The encoding prefix and the quote that literals begin with. -/
def literalMarks : List (List Char × Char) :=
  [([], '"'), ([], '\x27'), (['u', '8'], '"'), (['u'], '"'), (['U'], '"'), (['L'], '"'), (['u'], '\x27'),
    (['U'], '\x27'), (['L'], '\x27')]

/-- What the literal here begins with. -/
def literalMark? (gs : List Glyph) : Option (List Char × Char) :=
  literalMarks.find? fun (encoding, quote) => startsWith (encoding ++ [quote]) gs

/-- Whether a number begins here. -/
def startsNumber (gs : List Glyph) : Bool :=
  match joined gs with
  | '.' :: c :: _ => c.isDigit
  | c :: _ => c.isDigit
  | [] => false

theorem startsWith_pair {x y : Char} {g : Glyph} {rest : List Glyph} :
    startsWith [x, y] (g :: rest) = true ↔ g.char = x ∧ ∃ h gs, rest = h :: gs ∧ h.char = y := by
  cases rest with
  | nil => simp [startsWith, joined]
  | cons h gs =>
    simp only [startsWith, joined, List.map_cons, List.isPrefixOf_cons_cons, List.isPrefixOf_nil_left,
      Bool.and_true, Bool.and_eq_true, beq_iff_eq, List.cons.injEq]
    constructor
    · rintro ⟨rfl, rfl⟩
      exact ⟨rfl, h, gs, ⟨rfl, rfl⟩, rfl⟩
    · rintro ⟨rfl, _, _, ⟨rfl, rfl⟩, rfl⟩
      exact ⟨rfl, rfl⟩

/-- A number begins with a digit, or with a point and a digit. -/
theorem startsNumber_cons_iff {g : Glyph} {rest : List Glyph} :
    startsNumber (g :: rest) = true ↔
      g.char.isDigit = true ∨ g.char = '.' ∧ ∃ k ∈ rest.head?, k.char.isDigit = true := by
  rw [startsNumber, joined_cons]
  by_cases hpoint : g.char = '.'
  · have hdigit : g.char.isDigit = false := by
      rw [hpoint]
      rfl
    cases rest with
    | nil => simp [joined, hpoint]
    | cons k rest => simp [joined, hpoint]
  · constructor
    · intro h
      left
      split at h
      · next heq => exact absurd (List.cons.inj heq).1 hpoint
      · next heq => rwa [(List.cons.inj heq).1]
      · next heq => cases heq
    · intro h
      have hdigit := h.resolve_right fun hor => hpoint hor.1
      split
      · next heq => exact absurd (List.cons.inj heq).1 hpoint
      · next heq => rwa [← (List.cons.inj heq).1]
      · next heq => cases heq

theorem isDigit_of_not_startsNumber {g : Glyph} {rest : List Glyph}
    (h : ¬ startsNumber (g :: rest) = true) : g.char.isDigit = false :=
  Bool.eq_false_iff.2 fun hdigit => h (startsNumber_cons_iff.2 (.inl hdigit))

/-- The basic characters of an identifier. -/
def isBasic (c : Char) : Bool := c.isAlphanum || c == '_'

section

variable (extended : Char → Bool)

/-- Whether an identifier can go on with a character. -/
def isNamePart (g : Glyph) : Bool := isBasic g.char || extended g.char

/-- Whether a number can go on with a character of its own. -/
def isNumeric (g : Glyph) : Bool := isNamePart extended g || g.char == '.'

/-- How much of a text belongs to a number that has begun. A sign belongs to it behind the letter of an
exponent. -/
def numberLength : List Glyph → Nat
  | g :: h :: rest =>
    if g.char ∈ ['e', 'E', 'p', 'P'] ∧ h.char ∈ ['+', '-'] then numberLength rest + 2
    else if isNumeric extended g then numberLength (h :: rest) + 1
    else 0
  | [g] => if isNumeric extended g then 1 else 0
  | [] => 0

/-- A number goes on as long as it can. -/
theorem numberLength_stop (gs : List Glyph) :
    ∀ g ∈ (gs.drop (numberLength extended gs)).head?, isNumeric extended g = false := by
  fun_induction numberLength extended gs with
  | case1 g h rest _ ih => exact ih
  | case2 g h rest _ _ ih => exact ih
  | case3 g h rest _ hpart =>
    rintro k hk
    obtain rfl := Option.some.inj hk
    exact Bool.eq_false_iff.2 hpart
  | case4 g hpart => simp
  | case5 g hpart =>
    rintro k hk
    obtain rfl := Option.some.inj hk
    exact Bool.eq_false_iff.2 hpart
  | case6 => simp

theorem numberLength_pos {g : Glyph} (h : isNumeric extended g = true) (rest : List Glyph) :
    0 < numberLength extended (g :: rest) := by
  cases rest with
  | nil =>
    rw [numberLength, if_pos h]
    exact Nat.one_pos
  | cons k rest =>
    rw [numberLength]
    split
    · exact Nat.succ_pos _
    · exact Nat.succ_pos _

/-- What is taken of a number begins one. -/
theorem startsNumber_take {g : Glyph} {rest : List Glyph} (h : startsNumber (g :: rest) = true) :
    startsNumber (g :: rest.take (numberLength extended rest)) = true := by
  rw [startsNumber_cons_iff] at h ⊢
  refine h.imp_right fun ⟨hpoint, k, hk, hdigit⟩ => ⟨hpoint, k, ?_, hdigit⟩
  have hnumeric : isNumeric extended k = true := by
    simp [isNumeric, isNamePart, isBasic, Char.isAlphanum, hdigit]
  cases rest with
  | nil => cases hk
  | cons m rest =>
    obtain rfl := Option.some.inj hk
    have hpos := numberLength_pos extended hnumeric rest
    rw [List.head?_take, if_neg (Nat.ne_of_gt hpos)]
    rfl

/-- The longest piece at the front of a text, and what follows it. -/
def munch (g : Glyph) (rest : List Glyph) : Piece × List Glyph :=
  if startsWith ['/', '/'] (g :: rest) then
    (.lineComment (g :: rest.take 1) ((rest.drop 1).takeWhile isInLine), (rest.drop 1).dropWhile isInLine)
  else if startsWith ['/', '*'] (g :: rest) then
    let text := rest.drop 1
    (.blockComment (g :: rest.take 1) (text.take (commentLength text)), text.drop (commentLength text))
  else match literalMark? (g :: rest) with
  | some (encoding, quote) =>
    let text := rest.drop encoding.length
    (.literal (g :: rest.take encoding.length) (text.take (literalLength quote text)),
      text.drop (literalLength quote text))
  | none =>
    if startsNumber (g :: rest) then
      (.number (g :: rest.take (numberLength extended rest)), rest.drop (numberLength extended rest))
    else if isNamePart extended g then
      (.identifier (g :: rest.takeWhile (isNamePart extended)), rest.dropWhile (isNamePart extended))
    else (.other g, rest)

/-- **A piece and what follows it** are the text. -/
theorem munch_glyphs (g : Glyph) (rest : List Glyph) :
    (munch extended g rest).1.glyphs ++ (munch extended g rest).2 = g :: rest := by
  fun_cases munch extended g rest with
  | case1 =>
    simp only [Piece.glyphs, List.append_assoc, List.takeWhile_append_dropWhile, List.take_append_drop,
      List.cons_append]
  | case2 _ _ text =>
    simp only [Piece.glyphs, text, List.append_assoc, List.take_append_drop, List.cons_append]
  | case3 _ _ encoding _ _ text =>
    simp only [Piece.glyphs, text, List.append_assoc, List.take_append_drop, List.cons_append]
  | case4 => simp [Piece.glyphs]
  | case5 => simp [Piece.glyphs]
  | case6 => rfl

/-- A piece has a character. -/
theorem length_munch_le (g : Glyph) (rest : List Glyph) : (munch extended g rest).2.length ≤ rest.length := by
  fun_cases munch extended g rest with
  | case1 => exact ((List.dropWhile_sublist _).trans (List.drop_sublist _ _)).length_le
  | case2 => exact ((List.drop_sublist _ _).trans (List.drop_sublist _ _)).length_le
  | case3 => exact ((List.drop_sublist _ _).trans (List.drop_sublist _ _)).length_le
  | case4 => exact (List.drop_sublist _ _).length_le
  | case5 => exact (List.dropWhile_sublist _).length_le
  | case6 => exact Nat.le_refl _

/-- The pieces of a text, from its front. -/
def pieces : List Glyph → List Piece
  | [] => []
  | g :: rest => (munch extended g rest).1 :: pieces (munch extended g rest).2
termination_by gs => gs.length
decreasing_by exact Nat.lt_succ_of_le (length_munch_le extended g rest)

end

end Quasiquote.Native.Lexical
