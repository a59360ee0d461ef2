import Quasiquote.Proofs.Host.Brackets
import Quasiquote.Proofs.Source.Spacing

/-!
# Writing host expressions

The words of an expression, with parentheses only where it would be read as another one without them: an
operand is put in parentheses if it is looser than the place where it stands.

## Main Definitions

* `Host.Level.rank` — the levels from loose to tight
* `Host.Expr.words` — the words of an expression
* `Host.Expr.Printable` — expressions over names and literals that can be written

## Main Statements

* `Host.Forms.of_rank_le` — a phrase is one of all looser levels
* `Host.Expr.Printable.forms` — the words of an expression are a phrase, and its tree is the expression
* `Host.Expr.Printable.parts` — the words of an expression are legible
-/

namespace Quasiquote.Host

variable {words : List Spelling} {tree : Expr}

/-! ### The order of levels -/

namespace Level

/-- The levels from loose to tight. -/
def rank : Level → Nat
  | conditional => 0
  | disjunction => 1
  | conjunction => 2
  | negation => 3
  | comparison => 4
  | operand strength => 5 + strength
  | unary => 12
  | power => 13
  | primary => 14
  | atom => 15

/-- The level of a rank. -/
def ofRank : Nat → Level
  | 0 => conditional
  | 1 => disjunction
  | 2 => conjunction
  | 3 => negation
  | 4 => comparison
  | 5 => operand 0
  | 6 => operand 1
  | 7 => operand 2
  | 8 => operand 3
  | 9 => operand 4
  | 10 => operand 5
  | 11 => operand 6
  | 12 => unary
  | 13 => power
  | 14 => primary
  | _ => atom

/-- Whether there are operators for a level. None bind tighter than products and less tight than
signs. -/
def IsProper (level : Level) : Prop := ofRank level.rank = level

instance (level : Level) : Decidable level.IsProper := inferInstanceAs (Decidable (_ = _))

theorem IsProper.rank_le {level : Level} (h : level.IsProper) : level.rank ≤ atom.rank := by
  rw [← h]
  unfold ofRank
  split <;> decide

end Level

theorem Forms.loosen {rank : Nat} (h : Forms (.ofRank (rank + 1)) words tree) :
    Forms (.ofRank rank) words tree :=
  match rank, h with
  | 0, h => h.conditional
  | 1, h => h.disjunction
  | 2, h => h.conjunction
  | 3, h => h.negation
  | 4, h => h.comparison
  | 5, h => h.looser
  | 6, h => h.looser
  | 7, h => h.looser
  | 8, h => h.looser
  | 9, h => h.looser
  | 10, h => h.looser
  | 11, h => h.operand
  | 12, h => h.unary
  | 13, h => h.power
  | 14, h => h.primary
  | _ + 15, h => h

/-- **A phrase is one of all looser levels.** -/
theorem Forms.of_rank_le {loose tight : Level} (hloose : loose.IsProper) (htight : tight.IsProper)
    (hle : loose.rank ≤ tight.rank) (h : Forms tight words tree) : Forms loose words tree := by
  have hrank {low high : Nat} (hle : low ≤ high) :
      Forms (.ofRank high) words tree → Forms (.ofRank low) words tree := by
    induction hle with
    | refl => exact id
    | step _ ih => exact fun h => ih h.loosen
  rw [← hloose]
  rw [← htight] at h
  exact hrank hle h

/-! ### Words -/

/-- A phrase of a level in a place for another one: in parentheses if it is looser. -/
def enclose (own place : Level) (words : List Spelling) : List Spelling :=
  if own.rank < place.rank then sign "(" :: (words ++ [sign ")"]) else words

/-- A phrase in a place for another one is one of the place. -/
theorem Forms.enclose {own place : Level} (hown : own.IsProper) (hplace : place.IsProper)
    (h : Forms own words tree) : Forms place (enclose own place words) tree := by
  unfold Host.enclose
  split
  · have hinner : Forms .conditional words tree := h.of_rank_le rfl hown (Nat.zero_le _)
    exact hinner.parentheses.of_rank_le hplace (by decide) hplace.rank_le
  · next hle => exact h.of_rank_le hplace hown (Nat.le_of_not_lt hle)

/-- Stretches of words with commas between them. -/
def withCommas (parts : List (List Spelling)) : List Spelling := [sign ","].intercalate parts

theorem separated_withCommas (parts : List (List Spelling)) : Separated parts (withCommas parts) := by
  induction parts with
  | nil => exact .nil
  | cons part parts ih =>
    cases parts with
    | nil => simpa [withCommas] using Separated.last part
    | cons next parts => simpa [withCommas, List.intercalate] using ih.more part

/-- The level of what an operator makes. -/
def BinaryOp.level : BinaryOp → Level
  | pow => .power
  | op => .operand (op.strength - 1)

/-- The level of an operator's left operand. -/
def BinaryOp.leftLevel : BinaryOp → Level
  | pow => .primary
  | op => .operand (op.strength - 1)

/-- The level of an operator's right operand. -/
def BinaryOp.rightLevel : BinaryOp → Level
  | pow => .unary
  | op => .operand op.strength

theorem Forms.ofBinary (op : BinaryOp) {l r : List Spelling} {left right : Expr}
    (hl : Forms op.leftLevel l left) (hr : Forms op.rightLevel r right) :
    Forms op.level (l ++ sign op.symbol :: r) (.binary op left right) := by
  cases op with
  | pow => exact hl.raised hr
  | _ => exact .binary (by decide) rfl hl hr

/-- A literal as it is written. -/
def Constant.word : Constant → Spelling
  | none => Host.word "None"
  | bool true => Host.word "True"
  | bool false => Host.word "False"
  | int value => (.number, toString value)
  | float value => (.number, toString value)
  | str text => (.string, Literal.quote text)

mutual

/-- **The words of an expression in a place for phrases of a level,** with parentheses only where they
are needed. -/
def Expr.words : Expr → Level → List Spelling
  | .const value, _ => [value.word]
  | .name id, _ => [word id]
  | .list items, _ => sign "[" :: (withCommas (wordsOfEach items) ++ [sign "]"])
  | .unary op operand, place => enclose .unary place (sign op.symbol :: operand.words .unary)
  | .binary op left right, place =>
    enclose op.level place (left.words op.leftLevel ++ sign op.symbol :: right.words op.rightLevel)
  | .compare first chain, place =>
    enclose .comparison place (first.words (.operand 0) ++ wordsOfChain chain)
  | .not operand, place => enclose .negation place (word "not" :: operand.words .negation)
  | .and left right, place =>
    enclose .conjunction place (left.words .conjunction ++ word "and" :: right.words .negation)
  | .or left right, place =>
    enclose .disjunction place (left.words .disjunction ++ word "or" :: right.words .conjunction)
  | .ifElse condition body orElse, place =>
    enclose .conditional place (body.words .disjunction ++
      word "if" :: (condition.words .disjunction ++ word "else" :: orElse.words .conditional))
  | .index target position, place =>
    enclose .primary place
      (target.words .primary ++ sign "[" :: (position.words .conditional ++ [sign "]"]))
  | .call function arguments, place =>
    enclose .primary place
      (word function :: sign "(" :: (withCommas (wordsOfEach arguments) ++ [sign ")"]))

/-- The words of some expressions. -/
def wordsOfEach : List Expr → List (List Spelling)
  | [] => []
  | e :: rest => e.words .conditional :: wordsOfEach rest

/-- The words of a chain of comparisons. -/
def wordsOfChain : List (CompareOp × Expr) → List Spelling
  | [] => []
  | (op, e) :: rest => op.words ++ (e.words (.operand 0) ++ wordsOfChain rest)

end

theorem wordsOfEach_eq (items : List Expr) :
    wordsOfEach items = items.map fun e => e.words .conditional := by
  induction items with
  | nil => rfl
  | cons e rest ih => rw [wordsOfEach, ih, List.map_cons]

/-- A comparison of a chain with the words of its operand. -/
def Link.ofPair (pair : CompareOp × Expr) : Link :=
  { op := pair.1, words := pair.2.words (.operand 0), operand := pair.2 }

theorem wordsOfChain_eq (chain : List (CompareOp × Expr)) :
    wordsOfChain chain = (chain.map Link.ofPair).flatMap Link.spelled := by
  induction chain with
  | nil => rfl
  | cons pair rest ih =>
    rw [wordsOfChain, ih, List.map_cons, List.flatMap_cons, Link.spelled, List.append_assoc]
    rfl

/-! ### Expressions that can be written -/

/-- What can be the name of a variable or a function: an identifier of ASCII characters that is no
keyword and does not stand for a value. -/
structure IsName (id : String) : Prop where
  identifier : Scan.isIdentifier id.toList = true
  ascii : ∀ c ∈ id.toList, c.toNat < 0x80
  keyword : isKeyword id = false
  value : id ∉ ["True", "False", "None"]

/-- The values that literals denote. A negative number is a sign with a literal behind it. -/
inductive Constant.IsLiteral : Constant → Prop
  | none : IsLiteral .none
  | bool (value : Bool) : IsLiteral (.bool value)
  | int {value : Int64} : 0 ≤ value → IsLiteral (.int value)
  | str (text : String) : IsLiteral (.str text)

/-- **Expressions over names and literals.** -/
inductive Expr.Printable : Expr → Prop
  | const {value : Constant} : value.IsLiteral → Printable (.const value)
  | name {id : String} : IsName id → Printable (.name id)
  | list {items : List Expr} : (∀ e ∈ items, Printable e) → Printable (.list items)
  | unary (op : UnaryOp) {operand : Expr} : Printable operand → Printable (.unary op operand)
  | binary (op : BinaryOp) {left right : Expr} : Printable left → Printable right →
      Printable (.binary op left right)
  | compare {first : Expr} {chain : List (CompareOp × Expr)} : Printable first → chain ≠ [] →
      (∀ pair ∈ chain, Printable pair.2) → Printable (.compare first chain)
  | not {operand : Expr} : Printable operand → Printable (.not operand)
  | and {left right : Expr} : Printable left → Printable right → Printable (.and left right)
  | or {left right : Expr} : Printable left → Printable right → Printable (.or left right)
  | ifElse {condition body orElse : Expr} : Printable condition → Printable body →
      Printable orElse → Printable (.ifElse condition body orElse)
  | index {target position : Expr} : Printable target → Printable position →
      Printable (.index target position)
  | call {function : String} {arguments : List Expr} : IsName function →
      (∀ e ∈ arguments, Printable e) → Printable (.call function arguments)

/-! ### Literals -/

theorem digit?_of_isDigit {c : Char} (h : c.isDigit = true) :
    Decimal.digit? 10 c = some (c.toNat - '0'.toNat) := by
  have hbound : c.toNat - '0'.toNat < 10 := by
    simp only [Char.isDigit, Bool.and_eq_true, decide_eq_true_eq, ge_iff_le, UInt32.le_iff_toNat_le] at h
    show c.val.toNat - 48 < 10
    have hnine : c.val.toNat ≤ 57 := h.2
    omega
  simp only [Decimal.digit?, h, if_true, Option.filter, hbound, decide_true]

theorem naturalFrom?_digits {digits : List Char} (h : ∀ c ∈ digits, c.isDigit = true) (read : Nat) :
    Decimal.naturalFrom? 10 read digits = some (Nat.ofDigitChars 10 digits read) := by
  induction digits generalizing read with
  | nil => rfl
  | cons c digits ih =>
    rw [List.forall_mem_cons] at h
    rw [Decimal.naturalFrom?, digit?_of_isDigit h.1]
    dsimp only
    rw [ih h.2, Nat.mul_comm]
    rfl

theorem toLower_of_isDigit {c : Char} (h : c.isDigit = true) : c.toLower = c := by
  simp only [Char.isDigit, Bool.and_eq_true, decide_eq_true_eq, ge_iff_le, UInt32.le_iff_toNat_le] at h
  have hlow : ¬ (65 : UInt32) ≤ c.val := by
    rw [UInt32.le_iff_toNat_le]
    exact Nat.not_le.2 (Nat.lt_of_le_of_lt h.2 (by decide))
  exact dif_neg fun hupper => hlow hupper.1

theorem isDigit_of_mem_repr (n : Nat) : ∀ c ∈ n.repr.toList, c.isDigit = true := by
  rw [Nat.toList_repr]
  exact fun c hc => Nat.isDigit_of_mem_toDigits (by decide) (by decide) hc

/-- A whole number that is not negative is written in decimal digits. -/
theorem exists_repr {value : Int64} (h : 0 ≤ value) :
    ∃ n : Nat, value.toInt = n ∧ toString value = n.repr := by
  obtain ⟨n, hn⟩ : ∃ n : Nat, value.toInt = n := Int.eq_ofNat_of_zero_le (Int64.le_iff_toInt_le.1 h)
  refine ⟨n, hn, ?_⟩
  show toString value.toInt = _
  rw [hn]
  rfl

theorem fits?_toInt (value : Int64) : Decimal.fits? value.toInt = some value := by
  rw [Decimal.fits?, if_pos ⟨Int64.minValue_le_toInt value, Int64.toInt_le value⟩, Int64.ofInt_toInt]

/-- **The decimal digits of a whole number are read as the number,** unless it is out of range. -/
theorem number?_repr (n : Nat) : Parser.number? n.repr = (Decimal.fits? n).map .int := by
  have hdigits : ∀ c ∈ Nat.toDigits 10 n, c.isDigit = true :=
    fun c hc => Nat.isDigit_of_mem_toDigits (by decide) (by decide) hc
  have hother {c : Char} (hc : c.isDigit = false) : c ∉ Nat.toDigits 10 n := by
    intro hmem
    rw [hdigits c hmem] at hc
    cases hc
  have hlower : ((Nat.toDigits 10 n).filter (· ≠ '_')).map Char.toLower = Nat.toDigits 10 n := by
    rw [List.filter_eq_self.2 fun c hc => by
        rw [decide_eq_true_eq]
        rintro rfl
        exact hother (by decide) hc]
    rw [List.map_congr_left fun c hc => toLower_of_isDigit (hdigits c hc), List.map_id']
  have hbase : Parser.base? (Nat.toDigits 10 n) = none := by
    unfold Parser.base?
    split
    · next heq => exact absurd (heq ▸ by simp) (hother (c := 'x') (by decide))
    · next heq => exact absurd (heq ▸ by simp) (hother (c := 'o') (by decide))
    · next heq => exact absurd (heq ▸ by simp) (hother (c := 'b') (by decide))
    · rfl
  have hnatural : Decimal.natural? 10 (Nat.toDigits 10 n) = some n := by
    have hne : (Nat.toDigits 10 n).isEmpty = false := by simp [Nat.toDigits_ne_nil]
    rw [Decimal.natural?, hne, if_neg Bool.false_ne_true, naturalFrom?_digits hdigits,
      Nat.ofDigitChars_ten_toDigits]
  have hsign : Decimal.splitSign (Nat.toDigits 10 n) = (false, Nat.toDigits 10 n) := by
    unfold Decimal.splitSign
    split
    · next heq => exact absurd (heq ▸ by simp) (hother (c := '-') (by decide))
    · next heq => exact absurd (heq ▸ by simp) (hother (c := '+') (by decide))
    · rfl
  rw [Parser.number?, Nat.toList_repr, hlower, hbase]
  dsimp only
  rw [if_neg (not_or.2 ⟨hother (by decide), hother (by decide)⟩), Decimal.integer?, hsign]
  dsimp only
  rw [hnatural]
  rfl

/-- A literal without letters is the text that its quotes stand around. -/
theorem literalText?_between {quote : Char} {spell : Char → List Char} (h : Literal.Writing quote spell)
    (text : String) : literalText? (String.ofList (Literal.between quote spell text.toList)) = some text := by
  unfold literalText?
  rw [String.toList_ofList, h.splitLetters, h.unquote]
  rfl

/-- A quoted text is the constant that it denotes. -/
theorem Forms.quoted {quote : Char} {spell : Char → List Char} (h : Literal.Writing quote spell)
    (text : String) : Forms .atom [(.string, String.ofList (Literal.between quote spell text.toList))]
      (.const (.str text)) := by
  have hone : Forms .atom ([String.ofList (Literal.between quote spell text.toList)].map
      fun literal => (.string, literal)) (.const (.str (String.join [text]))) :=
    .strings (by simp) (by simpa using literalText?_between h text)
  simpa using hone

theorem Constant.IsLiteral.forms {value : Constant} (h : value.IsLiteral) :
    Forms .atom [value.word] (.const value) := by
  cases h with
  | none => exact .none
  | bool value => cases value with
    | true => exact .true
    | false => exact .false
  | @int value h =>
    obtain ⟨n, hn, htext⟩ := exists_repr h
    refine .number ?_
    rw [htext, number?_repr, ← hn, fits?_toInt]
    rfl
  | str text => exact .quoted Literal.writing_quoteChar text

theorem IsName.forms {id : String} (h : IsName id) : Forms .atom [word id] (.name id) :=
  .name h.value h.keyword

/-! ### The words of an expression are a phrase -/

theorem BinaryOp.isProper (op : BinaryOp) :
    op.level.IsProper ∧ op.leftLevel.IsProper ∧ op.rightLevel.IsProper := by
  cases op <;> decide

/-- Some expressions with their words. -/
theorem forms_each {items : List Expr}
    (h : ∀ e ∈ items, Forms .conditional (e.words .conditional) e) :
    ∃ parts : List (List Spelling × Expr),
      Separated (parts.map Prod.fst) (withCommas (wordsOfEach items)) ∧
      parts.map Prod.snd = items ∧ ∀ part ∈ parts, Forms .conditional part.1 part.2 := by
  refine ⟨items.map fun e => (e.words .conditional, e), ?_, ?_, List.forall_mem_map.2 h⟩
  · rw [wordsOfEach_eq, List.map_map]
    exact separated_withCommas _
  · rw [List.map_map]
    exact List.map_id items

/-- **The words of an expression are a phrase,** and its tree is the expression. -/
theorem Expr.Printable.forms {e : Expr} (h : e.Printable) {place : Level} (hplace : place.IsProper) :
    Forms place (e.words place) e := by
  have hatom {words : List Spelling} {e : Expr} {place : Level} (hplace : place.IsProper)
      (h : Forms .atom words e) : Forms place words e :=
    h.of_rank_le hplace (by decide) hplace.rank_le
  induction h generalizing place with
  | const h => exact hatom hplace h.forms
  | name h => exact hatom hplace h.forms
  | list _ ih =>
    obtain ⟨parts, hseparated, htrees, hparts⟩ := forms_each fun e he => ih e he (by decide)
    have hlist := Forms.list hparts hseparated
    rw [htrees] at hlist
    exact hatom hplace hlist
  | unary op _ ih => exact ((ih (by decide)).signed op).enclose (by decide) hplace
  | binary op _ _ ihl ihr =>
    exact (Forms.ofBinary op (ihl op.isProper.2.1) (ihr op.isProper.2.2)).enclose op.isProper.1 hplace
  | @compare first chain _ hne _ ihfirst ihchain =>
    have hlinks : ∀ link ∈ chain.map Link.ofPair, Forms (.operand 0) link.words link.operand :=
      List.forall_mem_map.2 fun pair hpair => ihchain pair hpair (by decide)
    have hcompare := (ihfirst (by decide)).compare (by simpa using hne) hlinks
    have htrees : (chain.map Link.ofPair).map Link.pair = chain := by
      rw [List.map_map]
      exact List.map_id chain
    rw [htrees, ← wordsOfChain_eq] at hcompare
    exact hcompare.enclose (by decide) hplace
  | not _ ih => exact (ih (by decide)).not.enclose (by decide) hplace
  | and _ _ ihl ihr => exact ((ihl (by decide)).and (ihr (by decide))).enclose (by decide) hplace
  | or _ _ ihl ihr => exact ((ihl (by decide)).or (ihr (by decide))).enclose (by decide) hplace
  | ifElse _ _ _ ihc ihb iho =>
    exact ((ihb (by decide)).ifElse (ihc (by decide)) (iho (by decide))).enclose (by decide) hplace
  | index _ _ iht ihp => exact ((iht (by decide)).index (ihp (by decide))).enclose (by decide) hplace
  | call hname _ ih =>
    obtain ⟨parts, hseparated, htrees, hparts⟩ := forms_each fun e he => ih e he (by decide)
    have hcall := hname.forms.primary.call hparts hseparated
    rw [htrees] at hcall
    exact hcall.enclose (by decide) hplace

/-! ### The words of an expression are legible -/

/-- The operators and brackets of expressions. -/
def expressionSigns : List String :=
  ["(", ")", "[", "]", ",", "+", "-", "*", "/", "//", "%", "**", "|", "^", "&", "<<", ">>", "~", "<", "<=",
    ">", ">=", "==", "!="]

/-- The operators that statements have besides. -/
def statementSigns : List String :=
  ["=", ";", "+=", "-=", "*=", "/=", "//=", "%=", "**=", "|=", "^=", "&=", "<<=", ">>="]

/-- **A legible word of host code** with some operators. It does not begin with a byte order mark. -/
structure IsPart (signs : List String) (w : Spelling) : Prop where
  legible : Scan.Legible w
  unmarked : ∀ c ∈ w.2.toList.head?, c ≠ byteOrderMark
  sign : w.1 = .operator → w.2 ∈ signs

theorem IsPart.isWord {signs : List String} {w : Spelling} (h : IsPart signs w) : w.1.isWord = true :=
  Scan.isWord_of_lexeme (h.legible [] Scan.endsWord_nil)

theorem isPart_sign {text : String} (h : text ∈ expressionSigns ++ statementSigns) {signs : List String}
    (hsigns : text ∈ signs) : IsPart signs (sign text) := by
  have hall : ∀ text ∈ expressionSigns ++ statementSigns, text.toList ≠ [] ∧
      Scan.operatorLength text.toList = text.toList.length ∧
      ∀ c ∈ text.toList.head?, c ∈ Scan.operators1 ∧ c ≠ '.' ∧ c.isDigit = false := by decide
  obtain ⟨hne, hlength, hfirst⟩ := hall text h
  have hmark : byteOrderMark ∉ Scan.operators1 := by decide
  refine ⟨Scan.legible_operator hlength hfirst hne, fun c hc => ?_, fun _ => hsigns⟩
  rintro rfl
  exact hmark (hfirst _ hc).1

theorem isPart_word {text : String} (h : Scan.isIdentifier text.toList = true)
    (hascii : ∀ c ∈ text.toList, c.toNat < 0x80) (signs : List String) : IsPart signs (word text) := by
  refine ⟨Scan.legible_name h, fun c hc => ?_, by simp⟩
  rintro rfl
  exact absurd (hascii _ (List.mem_of_mem_head? hc)) (by decide)

theorem IsName.isPart {id : String} (h : IsName id) (signs : List String) : IsPart signs (word id) :=
  isPart_word h.identifier h.ascii signs

theorem isPart_digits (n : Nat) (signs : List String) : IsPart signs (.number, n.repr) := by
  refine ⟨Scan.legible_number ?_ (isDigit_of_mem_repr n), fun c hc => ?_, by simp⟩
  · rw [Nat.toList_repr]
    exact Nat.toDigits_ne_nil
  · rintro rfl
    exact absurd (isDigit_of_mem_repr n _ (List.mem_of_mem_head? hc)) (by decide)

theorem isPart_between {quote : Char} {spell : Char → List Char} (h : Literal.Writing quote spell)
    (text : List Char) (signs : List String) :
    IsPart signs (.string, String.ofList (Literal.between quote spell text)) := by
  have hall : ∀ quote ∈ ['"', '\x27'], quote ≠ byteOrderMark := by decide
  refine ⟨Scan.legible_between h text, fun c hc => ?_, by simp⟩
  obtain rfl : quote = c := by simpa [Literal.between] using hc
  exact hall quote h.isQuote

theorem Constant.IsLiteral.isPart {value : Constant} (h : value.IsLiteral) (signs : List String) :
    IsPart signs value.word := by
  cases h with
  | none => exact isPart_word (by decide) (by decide) signs
  | bool value => cases value <;> exact isPart_word (by decide) (by decide) signs
  | @int value h =>
    obtain ⟨n, -, htext⟩ := exists_repr h
    rw [Constant.word, htext]
    exact isPart_digits n signs
  | str text => exact isPart_between Literal.writing_quoteChar text.toList signs

/-- Legible words of host code. -/
def Parts (signs : List String) (words : List Spelling) : Prop := ∀ w ∈ words, IsPart signs w

namespace Parts

variable {signs : List String} {left right : List Spelling} {w : Spelling}

theorem legible (h : Parts signs words) : ∀ w ∈ words, Scan.Legible w := fun w hw => (h w hw).legible

theorem operators (h : Parts signs words) : ∀ w ∈ words, w.1 = .operator → w.2 ∈ signs :=
  fun w hw => (h w hw).sign

theorem mono {more : List String} (h : Parts signs words) (hsub : signs ⊆ more) : Parts more words :=
  fun w hw => { h w hw with sign := fun hkind => hsub ((h w hw).sign hkind) }

theorem single (hw : IsPart signs w) : Parts signs [w] := List.forall_mem_singleton.2 hw

theorem cons (hw : IsPart signs w) (h : Parts signs words) : Parts signs (w :: words) :=
  List.forall_mem_cons.2 ⟨hw, h⟩

theorem append (hleft : Parts signs left) (hright : Parts signs right) : Parts signs (left ++ right) :=
  List.forall_mem_append.2 ⟨hleft, hright⟩

theorem around (hleft : Parts signs left) (hw : IsPart signs w) (hright : Parts signs right) :
    Parts signs (left ++ w :: right) :=
  hleft.append (hright.cons hw)

theorem bracket {opening closing : Spelling} (h : Parts signs words) (hopening : IsPart signs opening)
    (hclosing : IsPart signs closing) : Parts signs (opening :: (words ++ [closing])) :=
  (h.append (single hclosing)).cons hopening

/-- Stretches of words with a word between them. -/
theorem intercalate (hw : IsPart signs w) {parts : List (List Spelling)}
    (h : ∀ part ∈ parts, Parts signs part) : Parts signs ([w].intercalate parts) := by
  induction parts with
  | nil => simp [Parts]
  | cons part parts ih =>
    rw [List.forall_mem_cons] at h
    cases parts with
    | nil => simpa [Parts] using h.1
    | cons next parts =>
      have hall := h.1.around hw (ih h.2)
      rwa [List.intercalate, List.intersperse_cons_cons, List.flatten_cons, List.flatten_cons]

end Parts

/-- Operators and brackets of expressions are legible. -/
theorem isPart_operator {text : String} (h : text ∈ expressionSigns) :
    IsPart expressionSigns (sign text) :=
  isPart_sign (List.mem_append_left _ h) h

theorem isPart_keyword {text : String} (h : text ∈ keywords) : IsPart expressionSigns (word text) := by
  have hall : ∀ text ∈ keywords, Scan.isIdentifier text.toList = true ∧
      ∀ c ∈ text.toList, c.toNat < 0x80 := by decide
  exact isPart_word (hall text h).1 (hall text h).2 _

theorem CompareOp.parts (op : CompareOp) : Parts expressionSigns op.words := by
  have hsign {text : String} (h : text ∈ expressionSigns) : Parts expressionSigns [sign text] :=
    .single (isPart_operator h)
  have hword {text : String} (h : text ∈ keywords) : Parts expressionSigns [word text] :=
    .single (isPart_keyword h)
  cases op with
  | isIn | is => exact hword (by decide)
  | notIn | isNot => exact (hword (by decide)).cons (isPart_keyword (by decide))
  | _ => exact hsign (by decide)

theorem Parts.inParentheses (h : Parts expressionSigns words) :
    Parts expressionSigns (sign "(" :: (words ++ [sign ")"])) :=
  h.bracket (isPart_operator (by decide)) (isPart_operator (by decide))

theorem Parts.inBrackets (h : Parts expressionSigns words) :
    Parts expressionSigns (sign "[" :: (words ++ [sign "]"])) :=
  h.bracket (isPart_operator (by decide)) (isPart_operator (by decide))

theorem Parts.enclose (h : Parts expressionSigns words) (own place : Level) :
    Parts expressionSigns (enclose own place words) := by
  unfold Host.enclose
  split
  · exact h.inParentheses
  · exact h

theorem Parts.withCommas {parts : List (List Spelling)} (h : ∀ part ∈ parts, Parts expressionSigns part) :
    Parts expressionSigns (withCommas parts) :=
  .intercalate (isPart_operator (by decide)) h

/-- **The words of an expression are legible.** -/
theorem Expr.Printable.parts {e : Expr} (h : e.Printable) (place : Level) :
    Parts expressionSigns (e.words place) := by
  have heach {items : List Expr} (h : ∀ e ∈ items, ∀ place, Parts expressionSigns (e.words place)) :
      Parts expressionSigns (withCommas (wordsOfEach items)) := by
    refine Parts.withCommas ?_
    rw [wordsOfEach_eq]
    exact List.forall_mem_map.2 fun e he => h e he _
  induction h generalizing place with
  | const h => exact Parts.single (h.isPart _)
  | name h => exact Parts.single (h.isPart _)
  | list _ ih => exact (heach ih).inBrackets
  | unary op _ ih =>
    have hop : op.symbol ∈ expressionSigns := by cases op <;> decide
    exact ((ih _).cons (isPart_operator hop)).enclose _ _
  | binary op _ _ ihl ihr =>
    have hop : op.symbol ∈ expressionSigns := by cases op <;> decide
    exact ((ihl _).around (isPart_operator hop) (ihr _)).enclose _ _
  | @compare first chain _ _ _ ihfirst ihchain =>
    refine ((ihfirst _).append ?_).enclose _ _
    rw [wordsOfChain_eq]
    exact List.forall_mem_flatMap.2 (List.forall_mem_map.2 fun pair hpair =>
      pair.1.parts.append (ihchain pair hpair _))
  | not _ ih => exact ((ih _).cons (isPart_keyword (by decide))).enclose _ _
  | and _ _ ihl ihr => exact ((ihl _).around (isPart_keyword (by decide)) (ihr _)).enclose _ _
  | or _ _ ihl ihr => exact ((ihl _).around (isPart_keyword (by decide)) (ihr _)).enclose _ _
  | ifElse _ _ _ ihc ihb iho =>
    exact ((ihb _).around (isPart_keyword (by decide))
      ((ihc _).around (isPart_keyword (by decide)) (iho _))).enclose _ _
  | index _ _ iht ihp => exact ((iht _).append (ihp _).inBrackets).enclose _ _
  | call h _ ih => exact ((heach ih).inParentheses.cons (h.isPart _)).enclose _ _

end Quasiquote.Host
