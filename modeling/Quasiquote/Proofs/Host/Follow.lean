import Quasiquote.Proofs.Host.Rule

/-!
# What begins a phrase, and what goes on with it

The parser decides by the next word whether a phrase goes on, and by the first word what kind of phrase
it reads. So a phrase is read as such where no word follows that would go on with it.

## Main Definitions

* `Host.Level.begins` — the words with which phrases of a level begin
* `Host.Level.continues` — the words that go on with a phrase of a level
* `Host.Parser.Stops` — what follows a phrase does not go on with it

## Main Statements

* `Host.Forms.starts` — a phrase begins with a word that its level allows
* `Host.Parser.run_binaryOp?_of_stops`, `Host.Parser.run_compareOp?_of_stops` — where a phrase stops, no
  operator is found
-/

namespace Quasiquote.Host

namespace Level

/-! ### First words -/

/-- Whether a word can begin a literal, a name, a parenthesis or a list. -/
def beginsAtom : Spelling → Bool
  | (.number, _) => true
  | (.string, _) => true
  | (.name, text) => !isKeyword text
  | (.operator, text) => text ∈ ["(", "["]
  | _ => false

/-- Whether a word can begin an operand. -/
def beginsOperand (w : Spelling) : Bool := beginsAtom w || w ∈ [sign "-", sign "+", sign "~"]

/-- **The words with which phrases of a level begin.** -/
def begins : Level → Spelling → Bool
  | atom | primary | power => beginsAtom
  | unary | operand _ | comparison => beginsOperand
  | negation | conjunction | disjunction | conditional => fun w => beginsOperand w || w == word "not"

theorem begins_of_atom {w : Spelling} (h : beginsAtom w = true) : beginsOperand w = true := by
  rw [beginsOperand, h, Bool.true_or]

theorem begins_of_operand {w : Spelling} (h : beginsOperand w = true) :
    (beginsOperand w || w == word "not") = true := by
  rw [h, Bool.true_or]

/-- No phrase begins with a keyword other than `not`. -/
theorem ne_keyword {level : Level} {w : Spelling} (h : level.begins w = true) {text : String}
    (hkeyword : isKeyword text = true) (hnot : text ≠ "not") : w ≠ word text := by
  rintro rfl
  cases level <;> simp [begins, beginsOperand, beginsAtom, hkeyword, hnot] at h

/-! ### Words that go on with a phrase -/

/-- Whether a word goes on with a primary expression. -/
def continuesPrimary (w : Spelling) : Bool := w.1 == .string || w ∈ [sign "[", sign "("]

/-- Whether a word goes on with a power. -/
def continuesPower (w : Spelling) : Bool := continuesPrimary w || w == sign "**"

/-- Whether a word goes on with operands of the operators that bind tighter than `strength`. -/
def continuesOperand (strength : Nat) (w : Spelling) : Bool :=
  continuesPower w ||
    BinaryOp.leftAssociative.any fun op => strength < op.strength && w == sign op.symbol

/-- Whether a word goes on with a chain of comparisons. -/
def continuesComparison (w : Spelling) : Bool :=
  continuesOperand 0 w ||
    w ∈ [sign "<", sign "<=", sign ">", sign ">=", sign "==", sign "!=", word "in", word "not", word "is"]

/-- **The words that go on with a phrase of a level.** -/
def continues : Level → Spelling → Bool
  | atom => fun w => w.1 == .string
  | primary => continuesPrimary
  | power | unary => continuesPower
  | operand strength => continuesOperand strength
  | comparison | negation => continuesComparison
  | conjunction => fun w => continuesComparison w || w == word "and"
  | disjunction => fun w => continuesComparison w || w == word "and" || w == word "or"
  | conditional => fun w =>
    continuesComparison w || w == word "and" || w == word "or" || w == word "if"

end Level

/-- Words of which the first satisfies `p`. -/
def Starts (p : Spelling → Bool) (words : List Spelling) : Prop :=
  ∃ w rest, words = w :: rest ∧ p w = true

theorem Starts.mono {p q : Spelling → Bool} {words : List Spelling}
    (hpq : ∀ {w}, p w = true → q w = true) (h : Starts p words) : Starts q words := by
  obtain ⟨w, rest, rfl, hw⟩ := h
  exact ⟨w, rest, rfl, hpq hw⟩

theorem Starts.append {p : Spelling → Bool} {left : List Spelling} (h : Starts p left)
    (right : List Spelling) : Starts p (left ++ right) := by
  obtain ⟨w, rest, rfl, hw⟩ := h
  exact ⟨w, rest ++ right, rfl, hw⟩

theorem starts_cons {p : Spelling → Bool} {w : Spelling} (h : p w = true) (rest : List Spelling) :
    Starts p (w :: rest) :=
  ⟨w, rest, rfl, h⟩

/-- **A phrase begins with a word that its level allows.** -/
theorem Forms.starts {level : Level} {words : List Spelling} {tree : Expr}
    (h : Forms level words tree) : Starts level.begins words := by
  induction h with
  | ifElse _ _ _ hb => exact hb.append _
  | conditional _ h => exact h
  | or _ _ hl => exact hl.append _
  | disjunction _ h => exact h
  | and _ _ hl => exact hl.append _
  | conjunction _ h => exact h
  | not => exact starts_cons (by decide) _
  | negation _ h => exact h.mono Level.begins_of_operand
  | compare _ _ _ h => exact h.append _
  | comparison _ h => exact h
  | binary _ _ _ _ hl => exact hl.append _
  | looser _ h => exact h
  | operand _ h => exact h
  | signed op => exact starts_cons (by cases op <;> decide) _
  | unary _ h => exact h.mono Level.begins_of_atom
  | raised _ _ hb => exact hb.append _
  | power _ h => exact h
  | index _ _ hw => exact hw.append _
  | call _ _ _ hw => exact hw.append _
  | primary _ h => exact h
  | number => exact starts_cons rfl _
  | @strings literals _ hne =>
    obtain ⟨literal, literals, rfl⟩ := List.exists_cons_of_ne_nil hne
    exact starts_cons rfl _
  | true => exact starts_cons (by decide) _
  | false => exact starts_cons (by decide) _
  | none => exact starts_cons (by decide) _
  | @name id _ hkeyword =>
    have hbegins : Level.beginsAtom (word id) = !isKeyword id := rfl
    exact starts_cons (by rw [Level.begins, hbegins, hkeyword, Bool.not_false]) _
  | parentheses => exact starts_cons (by decide) _
  | list => exact starts_cons (by decide) _

namespace Parser

variable {ts rest : List Token} {t : Token}

/-! ### What follows a phrase -/

/-- **What follows a phrase of a level does not go on with it.** -/
def Stops (level : Level) (rest : List Token) : Prop :=
  ∀ t ∈ rest.head?, level.continues t.spelling = false

theorem Stops.mono {loose tight : Level} (h : Stops loose rest)
    (hmono : ∀ w, tight.continues w = true → loose.continues w = true) : Stops tight rest :=
  fun t ht => Bool.eq_false_iff.2 fun hw => Bool.eq_false_iff.1 (h t ht) (hmono _ hw)

theorem stops_cons {level : Level} {w : Spelling} (ht : t.spelling = w)
    (hw : level.continues w = false) : Stops level (t :: rest) := by
  rintro t' ht'
  obtain rfl : t = t' := by simpa using ht'
  rwa [ht]

/-- A word that would go on with the phrase does not follow. -/
theorem Stops.ne {level : Level} {w : Spelling} (h : Stops level rest)
    (hw : level.continues w = true) : ∀ t ∈ rest.head?, t.spelling ≠ w := by
  rintro t ht rfl
  simp [h t ht] at hw

/-! ### Operators ahead -/

/-- An operator that binds tight enough is found. -/
theorem run_binaryOp?_of_eq {least : Nat} {op : BinaryOp} (hop : op ∈ BinaryOp.leftAssociative)
    (hleast : least < op.strength) (ht : t.spelling = sign op.symbol) :
    (binaryOp? least).run (t :: ts) = .ok (some op, ts) := by
  rw [run_binaryOp?, List.headD_cons, binaryOf?_of_spelling hop ht]
  simp only [Option.filter, hleast, decide_true, if_true, List.tail_cons]

/-- Behind operands, an operator is found only if it goes on with them. -/
theorem run_binaryOp?_of_stops {least : Nat} (h : Stops (.operand least) ts) :
    (binaryOp? least).run ts = .ok (none, ts) := by
  have hnone : (binaryOf? (ts.headD endToken)).filter (least < ·.strength) = none := by
    rw [Option.filter_eq_none_iff]
    intro op hop
    cases ts with
    | nil => cases hop
    | cons t ts =>
      obtain ⟨hmem, ht⟩ := binaryOf?_eq_some hop
      have hstop := h t rfl
      rw [List.headD_cons] at ht
      rw [ht, Level.continues, Level.continuesOperand, Bool.or_eq_false_iff, List.any_eq_false] at hstop
      have hnot := hstop.2 op hmem
      simpa using hnot
  rw [run_binaryOp?, hnone]

/-- The sign ahead is found. -/
theorem run_unaryOp?_of_eq {op : UnaryOp} (ht : t.spelling = sign op.symbol) :
    unaryOp?.run (t :: ts) = .ok (some op, ts) := by
  have hne {text : String} (h : sign op.symbol ≠ sign text) :
      ∀ t' ∈ (t :: ts).head?, t'.spelling ≠ sign text := head?_spelling_ne ht h
  rw [unaryOp?]
  cases op with
  | neg => exact run_ifOperator_of_eq _ _ ht
  | pos =>
    rw [run_ifOperator_of_ne _ _ (hne (by decide))]
    exact run_ifOperator_of_eq _ _ ht
  | invert =>
    rw [run_ifOperator_of_ne _ _ (hne (by decide)), run_ifOperator_of_ne _ _ (hne (by decide))]
    exact run_ifOperator_of_eq _ _ ht

theorem run_unaryOp?_of_ne (h : ∀ op : UnaryOp, ∀ t ∈ ts.head?, t.spelling ≠ sign op.symbol) :
    unaryOp?.run ts = .ok (none, ts) := by
  have hneg : ∀ t ∈ ts.head?, t.spelling ≠ sign "-" := h .neg
  have hpos : ∀ t ∈ ts.head?, t.spelling ≠ sign "+" := h .pos
  have hinvert : ∀ t ∈ ts.head?, t.spelling ≠ sign "~" := h .invert
  rw [unaryOp?, run_ifOperator_of_ne _ _ hneg, run_ifOperator_of_ne _ _ hpos,
    run_ifOperator_of_ne _ _ hinvert]
  rfl

/-- The comparison operator ahead is found. Only `is` may be followed by a word that makes another
operator of it. -/
theorem run_compareOp?_of_eq {op : CompareOp} {used : List Token}
    (hused : used.map Token.spelling = op.words)
    (hnot : ∀ t ∈ rest.head?, t.spelling ≠ word "not") :
    compareOp?.run (used ++ rest) = .ok (some op, rest) := by
  have hsecond : (rest.headD endToken).isText .name "not" = false :=
    isText_headD_eq_false (by decide) hnot
  rw [compareOp?, run_bind_of_ok (run_peek _), run_bind_of_ok (run_peekSecond _)]
  -- the words of an operator are one or two
  cases op with
  | notIn | isNot =>
    obtain ⟨t, more, rfl, ht, hmore⟩ := List.map_eq_cons_iff.1 hused
    obtain ⟨t', rfl, ht'⟩ := List.map_eq_singleton_iff.1 hmore
    rw [List.cons_append, List.singleton_append, List.headD_cons, List.tail_cons, List.headD_cons]
    simp only [Token.isOperator, Token.isName, isText_of_spelling ht, isText_of_spelling ht']
    rfl
  | _ =>
    obtain ⟨t, rfl, ht⟩ := List.map_eq_singleton_iff.1 hused
    rw [List.singleton_append, List.headD_cons, List.tail_cons]
    simp only [Token.isOperator, Token.isName, isText_of_spelling ht, hsecond]
    rfl

theorem run_compareOp?_of_stops (h : Stops .comparison ts) : compareOp?.run ts = .ok (none, ts) := by
  have hne {kind : Token.Kind} {text : String} (hkind : kind ≠ .endMarker)
      (hw : Level.comparison.continues (kind, text) = true) :
      (ts.headD endToken).isText kind text = false := isText_headD_eq_false hkind (h.ne hw)
  have hsign {text : String} (hw : Level.comparison.continues (sign text) = true) :
      (ts.headD endToken).isOperator text = false := hne (by decide) hw
  have hword {text : String} (hw : Level.comparison.continues (word text) = true) :
      (ts.headD endToken).isName text = false := hne (by decide) hw
  rw [compareOp?, run_bind_of_ok (run_peek _), run_bind_of_ok (run_peekSecond _)]
  dsimp only
  rw [hsign (by decide), hsign (by decide), hsign (by decide), hsign (by decide), hsign (by decide),
    hsign (by decide), hword (by decide), hword (by decide), hword (by decide)]
  rfl

end Parser

end Quasiquote.Host
