import Quasiquote.Proofs.Source.Quoted
import Quasiquote.Proofs.Source.Words

/-!
# Words with spaces between them

A text that is written word by word, with a space between two words, is read word by word. No space is
needed beside a bracket, a comma or a semicolon, nor behind a sign.

## Main Definitions

* `Scan.Legible` — a word that is read as it is written
* `Scan.touches` — which words can do without a space between them
* `Scan.Spaced` — words with spaces between them
* `Scan.joined` — their text with a space between any two of them

## Main Statements

* `Scan.legible_name`, `Scan.legible_number`, `Scan.legible_between`, `Scan.legible_operator` — the words
  that are legible
* `Scan.Spaced.words` — words with spaces between them are the words of their text
-/

namespace Quasiquote.Scan

/-! ### Legible words -/

/-- The characters that end every word before them. -/
def separators : List Char := " \n()[],;".toList

/-- Whether a text is empty or begins with a character that ends words. -/
def EndsWord (rest : List Char) : Prop := ∀ c ∈ rest.head?, c ∈ separators

theorem endsWord_nil : EndsWord [] := by simp [EndsWord]

theorem endsWord_cons {c : Char} (h : c ∈ separators) (rest : List Char) : EndsWord (c :: rest) := by
  intro d hd
  obtain rfl : c = d := by simpa using hd
  exact h

/-- **A word that is read as it is written,** in front of a separator or at the end. -/
def Legible (w : Spelling) : Prop :=
  ∀ rest, EndsWord rest → lexeme (w.2.toList ++ rest) = some (w.1, w.2.toList.length)

theorem Legible.ne_nil {w : Spelling} (h : Legible w) : w.2.toList ≠ [] := by
  intro hnil
  have hread := h [] endsWord_nil
  rw [hnil] at hread
  simp at hread

theorem legible_name {text : String} (h : isIdentifier text.toList = true) : Legible (.name, text) := by
  have hplain : ∀ c ∈ separators, isIdentPart c = false ∧ isQuote c = false := by decide
  exact fun rest hrest => lexeme_name h fun c hc => hplain c (hrest c hc)

theorem legible_number {text : String} (hne : text.toList ≠ [])
    (h : ∀ c ∈ text.toList, c.isDigit = true) : Legible (.number, text) := by
  have hplain : ∀ c ∈ separators, isNumberPart c = false ∧ isSign c = false := by decide
  exact fun rest hrest => lexeme_digits hne h fun c hc => hplain c (hrest c hc)

/-- A quoted text is legible: no separator is a quote. -/
theorem legible_between {quote : Char} {spell : Char → List Char} (h : Literal.Writing quote spell)
    (text : List Char) : Legible (.string, String.ofList (Literal.between quote spell text)) := by
  have hplain : ∀ quote ∈ ['"', '\x27'], quote ∉ separators := by decide
  intro rest hrest
  rw [String.toList_ofList]
  exact h.lexeme text fun hquote => hplain quote h.isQuote (hrest quote hquote)

/-- In front of a separator, an operator is as long as it is by itself. -/
theorem operatorLength_before {x rest : List Char} (hx : operatorLength x = x.length)
    (hne : x ≠ []) (hrest : EndsWord rest) : operatorLength (x ++ rest) = x.length := by
  have hapart : ∀ op ∈ operators3 ++ operators2, ∀ c ∈ op, c ∉ separators := by decide
  have hascii : ∀ c ∈ separators, c.utf8Size = 1 := by decide
  match rest with
  | [] => rwa [List.append_nil]
  | d :: rest =>
    have hd : d ∈ separators := hrest d rfl
    have hnone {op : List Char} (hmem : d ∈ op) : op ∉ operators3 ++ operators2 :=
      fun hop => hapart op hop d hmem hd
    have hnone3 {op : List Char} (hmem : d ∈ op) : op ∉ operators3 :=
      fun hop => hnone hmem (List.mem_append_left _ hop)
    have hnone2 {op : List Char} (hmem : d ∈ op) : op ∉ operators2 :=
      fun hop => hnone hmem (List.mem_append_right _ hop)
    match x with
    | [a] =>
      rw [List.length_singleton, operatorLength_eq_one_iff] at hx
      rw [List.singleton_append, List.length_singleton, operatorLength_eq_one_iff]
      exact ⟨hnone3 (by simp), fun hmem => hnone2 (by simp) hmem.1, hx.2.2⟩
    | [a, b] =>
      have htwo : ([a, b] : List Char).length = 2 := rfl
      rw [htwo, operatorLength_eq_two_iff] at hx
      rw [htwo, List.cons_append, List.singleton_append, operatorLength_eq_two_iff]
      refine ⟨hnone3 (by simp), hx.2.1, fun c hc => ?_⟩
      obtain rfl : d = c := by simpa using hc
      exact hascii d hd
    | [a, b, c] =>
      have hthree : ([a, b, c] : List Char).length = 3 := rfl
      rw [hthree, operatorLength_eq_three_iff] at hx ⊢
      exact hx
    | a :: b :: c :: e :: x =>
      have hle := operatorLength_le_three (a :: b :: c :: e :: x)
      simp only [List.length_cons] at hx
      omega

theorem legible_operator {text : String} (hlength : operatorLength text.toList = text.toList.length)
    (hfirst : ∀ c ∈ text.toList.head?, c ∈ operators1 ∧ c ≠ '.' ∧ c.isDigit = false)
    (hne : text.toList ≠ []) : Legible (.operator, text) := by
  intro rest hrest
  have hall := operatorLength_before hlength hne hrest
  obtain ⟨c, x, hx⟩ := List.exists_cons_of_ne_nil hne
  rw [hx] at hall hfirst ⊢
  obtain ⟨hop, hpoint, hdigit⟩ := hfirst c rfl
  rw [List.cons_append] at hall ⊢
  rw [lexeme_operator hop (by simp [startsNumber_cons, hdigit, hpoint]), hall]

/-! ### Signs and marks -/

/-- The brackets, the comma and the semicolon. They are read as they are written in front of all that
may follow. -/
def marks : List Spelling := ["(", ")", "[", "]", ",", ";"].map fun text => (.operator, text)

/-- The signs of numbers. -/
def signs : List Spelling := ["+", "-", "~"].map fun text => (.operator, text)

/-- **Whether no space is needed between two words.** -/
def touches (w next : Spelling) : Prop :=
  w ∈ marks ∨ next ∈ marks ∨ (w ∈ signs ∧ (next.1 ≠ .operator ∨ next ∈ signs))

instance (w next : Spelling) : Decidable (touches w next) :=
  inferInstanceAs (Decidable (_ ∨ _ ∨ (_ ∧ (_ ∨ _))))

/-- A sign is read as such if it does not go on as an assignment or an arrow. -/
theorem lexeme_sign {c : Char} (hc : c ∈ ['+', '-', '~']) {rest : List Char}
    (hrest : ∀ d ∈ rest.head?, d ≠ '=' ∧ d ≠ '>') : lexeme (c :: rest) = some (.operator, 1) := by
  have hplain : ∀ c ∈ ['+', '-', '~'], c ∈ operators1 ∧ c ≠ '.' ∧ c.isDigit = false := by decide
  have hthree : ∀ op ∈ operators3, ∀ c ∈ ['+', '-', '~'], op.head? ≠ some c := by decide
  have htwo : ∀ op ∈ operators2, ∀ c ∈ ['+', '-', '~'], op.head? = some c →
      op.tail = ['='] ∨ op.tail = ['>'] := by decide
  obtain ⟨hop, hpoint, hdigit⟩ := hplain c hc
  have hlength : operatorLength (c :: rest) = 1 := by
    refine (operatorLength_eq_one_iff _ _).2 ⟨fun hmem => hthree _ hmem c hc (by simp), ?_, hop⟩
    rintro ⟨hmem, -⟩
    have htail := htwo _ hmem c hc (by simp)
    cases rest with
    | nil => simp at htail
    | cons d rest =>
      obtain ⟨hequal, hgreater⟩ := hrest d rfl
      simp [hequal, hgreater] at htail
  rw [lexeme_operator hop (by simp [startsNumber_cons, hdigit, hpoint]), hlength]

theorem lexeme_of_mem_marks {w : Spelling} (h : w ∈ marks) (rest : List Char) :
    lexeme (w.2.toList ++ rest) = some (w.1, w.2.toList.length) := by
  have hone : ∀ w ∈ marks,
      w ∈ "()[],;".toList.map fun c => ((.operator, String.ofList [c]) : Spelling) := by decide
  obtain ⟨c, hc, rfl⟩ := List.mem_map.1 (hone w h)
  rw [String.toList_ofList]
  exact lexeme_mark hc rest

/-- A word that is no operator does not begin like the end of one. -/
theorem not_operator_of_legible {w : Spelling} (h : Legible w) (hkind : w.1 ≠ .operator) {c : Char}
    (hc : c ∈ w.2.toList.head?) : c ≠ '=' ∧ c ≠ '>' := by
  obtain ⟨x, hx⟩ := List.head?_eq_some_iff.1 hc
  have hread := h [] endsWord_nil
  rw [hx, List.append_nil] at hread
  have hend {d : Char} (hd : d ∈ ['=', '>']) : c ≠ d := by
    rintro rfl
    have hplain : ∀ d ∈ ['=', '>'], d ∈ operators1 ∧ d ≠ '.' ∧ d.isDigit = false := by decide
    obtain ⟨hop, hpoint, hdigit⟩ := hplain c hd
    rw [lexeme_operator hop (by simp [startsNumber_cons, hdigit, hpoint])] at hread
    exact hkind (by simp_all)
  exact ⟨hend (by simp), hend (by simp)⟩

/-- Words that can do without a space are read apart. -/
theorem lexeme_of_touches {w next : Spelling} (h : touches w next) (hw : Legible w)
    (hnext : Legible next) (rest : List Char) :
    lexeme (w.2.toList ++ (next.2.toList ++ rest)) = some (w.1, w.2.toList.length) := by
  obtain ⟨c, x, hx⟩ := List.exists_cons_of_ne_nil hnext.ne_nil
  rcases h with hmark | hmark | ⟨hsign, hbehind⟩
  · exact lexeme_of_mem_marks hmark _
  · have hall : ∀ w ∈ marks, ∀ c ∈ w.2.toList, c ∈ separators := by decide
    rw [hx, List.cons_append]
    exact hw _ (endsWord_cons (hall next hmark c (by simp [hx])) _)
  · have hone : ∀ w ∈ signs,
        w ∈ ['+', '-', '~'].map fun c => ((.operator, String.ofList [c]) : Spelling) := by decide
    obtain ⟨s, hs, rfl⟩ := List.mem_map.1 (hone w hsign)
    rw [String.toList_ofList, hx]
    refine lexeme_sign hs fun d hd => ?_
    obtain rfl : c = d := by simpa using hd
    rcases hbehind with hbehind | hbehind
    · exact not_operator_of_legible hnext hbehind (by simp [hx])
    · have hall : ∀ w ∈ signs, ∀ c ∈ w.2.toList, c ≠ '=' ∧ c ≠ '>' := by decide
      exact hall next hbehind c (by simp [hx])

/-! ### Texts -/

/-- **Words with spaces between them,** one between two words, or none where none is needed. -/
inductive Spaced : List Spelling → List Char → Prop
  | nil : Spaced [] []
  | last (w : Spelling) : Spaced [w] w.2.toList
  | space (w : Spelling) {next : Spelling} {words : List Spelling} {text : List Char} :
      Spaced (next :: words) text → Spaced (w :: next :: words) (w.2.toList ++ ' ' :: text)
  | touch {w next : Spelling} {words : List Spelling} {text : List Char} : touches w next →
      Spaced (next :: words) text → Spaced (w :: next :: words) (w.2.toList ++ text)

/-- The text of words with a space between any two of them. -/
def joined (words : List Spelling) : List Char :=
  ((words.map fun w => w.2.toList).intersperse [' ']).flatten

theorem spaced_joined (words : List Spelling) : Spaced words (joined words) := by
  induction words with
  | nil => exact .nil
  | cons w words ih =>
    cases words with
    | nil => simpa [joined] using Spaced.last w
    | cons next words => simpa [joined] using Spaced.space w ih

theorem Spaced.begins {w : Spelling} {words : List Spelling} {text : List Char}
    (h : Spaced (w :: words) text) : ∃ rest, text = w.2.toList ++ rest := by
  cases h with
  | last => exact ⟨[], (List.append_nil _).symm⟩
  | space => exact ⟨_, rfl⟩
  | touch => exact ⟨_, rfl⟩

theorem Spaced.cons_space (w : Spelling) {words : List Spelling} {text : List Char}
    (h : Spaced words text) (hne : words ≠ []) : Spaced (w :: words) (w.2.toList ++ ' ' :: text) := by
  obtain ⟨next, words, rfl⟩ := List.exists_cons_of_ne_nil hne
  exact .space w h

/-- A mark needs no space behind it. -/
theorem Spaced.cons_mark {mark : Spelling} (hmark : mark ∈ marks) {words : List Spelling}
    {text : List Char} (h : Spaced words text) : Spaced (mark :: words) (mark.2.toList ++ text) := by
  cases words with
  | nil =>
    cases h
    simpa using Spaced.last mark
  | cons w words => exact .touch (.inl hmark) h

/-- A mark needs no space before it. -/
theorem Spaced.append_mark {left right : List Spelling} {mark : Spelling} {x y : List Char}
    (hleft : Spaced left x) (hmark : mark ∈ marks) (hright : Spaced (mark :: right) y) :
    Spaced (left ++ mark :: right) (x ++ y) := by
  induction hleft with
  | nil => exact hright
  | last w => exact .touch (.inr (.inl hmark)) hright
  | space w _ ih =>
    rw [List.append_assoc]
    exact .space w ih
  | touch htouch _ ih =>
    rw [List.append_assoc]
    exact .touch htouch ih

/-- **Words with spaces between them are the words of their text.** -/
theorem Spaced.words {words : List Spelling} {text : List Char} (h : Spaced words text)
    (hlegible : ∀ w ∈ words, Legible w) {rest : List Char} (hrest : EndsWord rest) :
    Words (text ++ rest) words rest := by
  induction h with
  | nil => exact .nil rest
  | last w =>
    have hw := hlegible w (by simp)
    exact words_cons_of_lexeme hw.ne_nil (hw rest hrest) (.nil rest)
  | @space w next words text h ih =>
    rw [List.forall_mem_cons] at hlegible
    rw [List.append_assoc, List.cons_append]
    exact words_cons_of_lexeme hlegible.1.ne_nil (hlegible.1 _ (endsWord_cons (by decide) _))
      ((ih hlegible.2).indent (by simp) 1)
  | @touch w next words text htouch h ih =>
    rw [List.forall_mem_cons] at hlegible
    obtain ⟨more, htext⟩ := h.begins
    have hread := lexeme_of_touches htouch hlegible.1 (hlegible.2 next (by simp)) (more ++ rest)
    rw [← List.append_assoc next.2.toList, ← htext] at hread
    rw [List.append_assoc]
    exact words_cons_of_lexeme hlegible.1.ne_nil hread (ih hlegible.2)

end Quasiquote.Scan
