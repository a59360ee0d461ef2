import Quasiquote.Proofs.Host.Body
import Quasiquote.Proofs.Host.Exec
import Quasiquote.Proofs.Host.RoundTrip
import Quasiquote.Proofs.Value.Datum

/-!
# Written values are read back

The written form of a plain value is host code for that value, with one exception: the least integer is
written as a sign with digits behind it, and the digits alone are out of range.

## Main Definitions

* `Datum.words`, `Datum.expr` — the words of a written value, and the expression that they are
* `Datum.HasLeast` — the values in which the least integer occurs

## Main Statements

* `Datum.parseExpression_text` — a written value is read as its expression
* `Datum.eval_expr` — the expression of a value makes that value
* `Host.repr_reads_back` — the host makes a value from its written form exactly if the least integer does
  not occur in it
-/

namespace Quasiquote

open Host

namespace Datum

/-! ### Words -/

/-- The digits of an integer. -/
def digits (value : Int64) : Spelling := (.number, value.toInt.natAbs.repr)

/-- The words of a written value. -/
def words : Datum → List Spelling
  | none => [word "None"]
  | bool true => [word "True"]
  | bool false => [word "False"]
  | int value => if value.toInt < 0 then [sign "-", digits value] else [digits value]
  | str text => [(.string, quoteText text)]
  | list items => sign "[" :: (withCommas (items.map words) ++ [sign "]"])

theorem words_list (items : List Datum) :
    (list items).words = sign "[" :: (withCommas (items.map words) ++ [sign "]"]) := by
  rw [words]

theorem toString_toInt (value : Int64) :
    toString value.toInt =
      if value.toInt < 0 then "-" ++ value.toInt.natAbs.repr else value.toInt.natAbs.repr := by
  rcases value.toInt with n | n
  · rfl
  · rw [if_pos (Int.negSucc_lt_zero n)]
    rfl

theorem words_ne_nil (d : Datum) : d.words ≠ [] := by
  cases d with
  | bool value => cases value <;> simp [words]
  | int value =>
    rw [words]
    split <;> simp
  | _ => simp [words]

theorem withCommas_ne_nil {part : List Spelling} (h : part ≠ []) (parts : List (List Spelling)) :
    withCommas (part :: parts) ≠ [] := by
  cases parts with
  | nil => simpa [withCommas] using h
  | cons next parts =>
    rw [withCommas, List.intercalate_cons_cons]
    simp

/-- Written values with commas between them, and a space behind each comma. -/
theorem spaced_withCommas {items : List Datum} (h : ∀ d ∈ items, Scan.Spaced d.words d.text.toList) :
    Scan.Spaced (withCommas (items.map words)) (", ".intercalate (items.map text)).toList := by
  rw [withCommas, String.toList_intercalate]
  induction items with
  | nil => exact .nil
  | cons d items ih =>
    rw [List.forall_mem_cons] at h
    cases items with
    | nil => simpa using h.1
    | cons e items =>
      have hrest := ih h.2
      simp only [List.map_cons, List.intercalate_cons_cons, List.append_assoc] at hrest ⊢
      exact h.1.append_mark (by decide) (hrest.cons_space (sign ",") (withCommas_ne_nil e.words_ne_nil _))

/-- **The written form of a value is its words** with spaces between them. -/
theorem spaced_text (d : Datum) : Scan.Spaced d.words d.text.toList := by
  induction d with
  | none =>
    rw [words, text]
    exact .last (word "None")
  | bool value =>
    cases value with
    | true =>
      rw [words, text]
      exact .last (word "True")
    | false =>
      rw [words, text]
      exact .last (word "False")
  | int value =>
    rw [words, text, toString_toInt]
    split
    · rw [String.toList_append]
      exact .touch (by simp [Scan.touches, Scan.signs, digits]) (.last (digits value))
    · exact .last (digits value)
  | str text =>
    rw [words, Datum.text]
    exact .last (.string, quoteText text)
  | list items ih =>
    have hopens : sign "[" ∈ Scan.marks := by decide
    have hclosed := ((spaced_withCommas ih).append_mark (by decide) (.last (sign "]"))).cons_mark hopens
    rw [words_list, text_list, String.toList_append, String.toList_append, List.append_assoc]
    exact hclosed

theorem parts (d : Datum) : Parts expressionSigns d.words := by
  induction d with
  | none =>
    rw [words]
    exact .single (isPart_word (by decide) (by decide) _)
  | bool value => cases value <;> rw [words] <;> exact .single (isPart_word (by decide) (by decide) _)
  | int value =>
    have hdigits : IsPart expressionSigns (digits value) := isPart_digits _ _
    rw [words]
    split
    · exact (Parts.single hdigits).cons (isPart_operator (by decide))
    · exact .single hdigits
  | str text =>
    rw [words]
    have hwriting := Literal.writing_quoteTextChar (Literal.quoteFor_mem text.toList)
    exact .single (isPart_between hwriting text.toList _)
  | list items ih =>
    rw [words_list]
    exact (Parts.withCommas (List.forall_mem_map.2 ih)).inBrackets

theorem balanced (d : Datum) : Balanced d.words := by
  induction d with
  | none =>
    rw [words]
    exact .single (by decide)
  | bool value => cases value <;> rw [words] <;> exact .single (by decide)
  | int value =>
    have hdigits : Balanced [digits value] := .single (plain_of_ne_operator rfl (by simp [digits]))
    rw [words]
    split
    · exact Balanced.nil.around (by decide) hdigits
    · exact hdigits
  | str text =>
    rw [words]
    exact .single (plain_of_ne_operator rfl (by simp))
  | list items ih =>
    rw [words_list]
    exact ((separated_withCommas _).balanced (List.forall_mem_map.2 ih)).bracket (by decide) (by decide)

/-! ### Expressions -/

/-- The literal for the size of an integer. -/
def literal (value : Int64) : Expr := .const (.int (.ofInt value.toInt.natAbs))

/-- The expression that a written value is read as. -/
def expr : Datum → Expr
  | none => .const .none
  | bool value => .const (.bool value)
  | int value => if value.toInt < 0 then .unary .neg (literal value) else literal value
  | str text => .const (.str text)
  | list items => .list (items.map expr)

/-- **A value in which the least integer occurs.** -/
inductive HasLeast : Datum → Prop
  | int : HasLeast (.int Int64.minValue)
  | list {items : List Datum} {d : Datum} : d ∈ items → HasLeast d → HasLeast (.list items)

theorem expr_list (items : List Datum) : (list items).expr = .list (items.map expr) := by
  rw [expr]

/-- Of all integers but the least one, the size is an integer. -/
theorem natAbs_le {value : Int64} (h : value ≠ Int64.minValue) :
    value.toInt.natAbs ≤ 9223372036854775807 := by
  have hleast : Int64.minValue.toInt = -9223372036854775808 := rfl
  have hgreatest : Int64.maxValue.toInt = 9223372036854775807 := rfl
  have hne : value.toInt ≠ Int64.minValue.toInt := fun heq => h (Int64.toInt_inj.1 heq)
  have hlow := Int64.minValue_le_toInt value
  have hhigh := Int64.toInt_le value
  omega

theorem toInt_natAbs {value : Int64} (h : value ≠ Int64.minValue) :
    (Int64.ofInt value.toInt.natAbs).toInt = value.toInt.natAbs := by
  have hle := natAbs_le h
  exact Int64.toInt_ofInt_of_le (by omega) (by omega)

theorem fits?_natAbs {value : Int64} (h : value ≠ Int64.minValue) :
    Decimal.fits? value.toInt.natAbs = some (.ofInt value.toInt.natAbs) := by
  have hfits := fits?_toInt (.ofInt value.toInt.natAbs)
  rwa [toInt_natAbs h] at hfits

/-- **The words of a value are a phrase of the grammar,** unless the least integer is among them. -/
theorem forms {d : Datum} (h : ¬ d.HasLeast) : Forms .conditional d.words d.expr := by
  have hatom {words : List Spelling} {e : Expr} (h : Forms .atom words e) : Forms .conditional words e :=
    h.of_rank_le (by decide) (by decide) (by decide)
  induction d with
  | none =>
    rw [words, expr]
    exact hatom .none
  | bool value =>
    rw [expr]
    cases value with
    | true =>
      rw [words]
      exact hatom .true
    | false =>
      rw [words]
      exact hatom .false
  | int value =>
    have hne : value ≠ Int64.minValue := fun heq => h (heq ▸ .int)
    have hliteral : Forms .atom [digits value] (literal value) := by
      refine .number ?_
      rw [number?_repr, fits?_natAbs hne]
      rfl
    rw [words, expr]
    split
    · exact ((hliteral.of_rank_le (by decide) (by decide) (by decide)).signed .neg).of_rank_le
        (by decide) (by decide) (by decide)
    · exact hatom hliteral
  | str text =>
    rw [words, expr]
    exact hatom (.quoted (Literal.writing_quoteTextChar (Literal.quoteFor_mem text.toList)) text)
  | list items ih =>
    have hparts : ∀ part ∈ items.map fun d => (d.words, d.expr), Forms .conditional part.1 part.2 :=
      List.forall_mem_map.2 fun d hd => ih d hd fun hleast => h (.list hd hleast)
    have hlist := Forms.list hparts (separated_withCommas _)
    rw [List.map_map, List.map_map] at hlist
    rw [words_list, expr_list]
    exact hatom hlist

/-- **A written value is read as its expression.** -/
theorem parseExpression_text {d : Datum} (h : ¬ d.HasLeast) : parseExpression d.text = .ok d.expr :=
  parseExpression_of_forms (forms h) d.parts.legible d.parts.operators d.spaced_text

/-! ### Evaluation -/

theorem eval_literal (look : String → Option Ref) (value : Int64) (h : Heap) :
    eval look (literal value) h = .ok (h.alloc (.int (.ofInt value.toInt.natAbs))) := by
  rw [literal, eval]
  rfl

/-- The negative of an integer's size is the integer. -/
theorem unary_neg {value : Int64} (hsign : value.toInt < 0) (hne : value ≠ Int64.minValue) {h : Heap}
    {r : Ref} (hr : h.get r = .int (.ofInt value.toInt.natAbs)) :
    unary .neg r h = .ok (h.alloc (.int value)) := by
  have hresult : Arithmetic.unary? .neg (.int (.ofInt value.toInt.natAbs)) = some (.ok (.int value)) := by
    have hneg : -(value.toInt.natAbs : Int) = value.toInt := by omega
    simp only [Arithmetic.unary?, toInt_natAbs hne, hneg, Arithmetic.exact, fits?_toInt]
  have hobject : object r h = .ok (h.get r, h) := rfl
  rw [unary, run_bind, hobject, hr]
  dsimp only
  rw [Object.number?, Option.bind_some, hresult]
  rfl

/-- **The expression of a value makes that value.** -/
theorem eval_expr (look : String → Option Ref) {d : Datum} (hleast : ¬ d.HasLeast) (h : Heap) :
    ∃ r g, eval look d.expr h = .ok (r, g) ∧ h.Extends g ∧ g.Holds r d := by
  induction d generalizing h with
  | none =>
    rw [expr, eval]
    exact ⟨_, _, rfl, .alloc h _, .none (Heap.index_alloc h _) (Heap.get_alloc_self h _)⟩
  | bool value =>
    rw [expr, eval]
    exact ⟨_, _, rfl, .alloc h _, .bool (Heap.get_alloc_self h _)⟩
  | str text =>
    rw [expr, eval]
    exact ⟨_, _, rfl, .alloc h _, .str (Heap.get_alloc_self h _)⟩
  | int value =>
    have hne : value ≠ Int64.minValue := fun heq => hleast (heq ▸ .int)
    rw [expr]
    split
    · next hsign =>
      rw [eval, run_bind, eval_literal]
      have hneg := unary_neg hsign hne (Heap.get_alloc_self h (.int (.ofInt value.toInt.natAbs)))
      exact ⟨_, _, hneg, (Heap.Extends.alloc h _).trans (.alloc _ _), .int (Heap.get_alloc_self _ _)⟩
    · next hsign =>
      have hsize : (value.toInt.natAbs : Int) = value.toInt := by omega
      rw [eval_literal, hsize, Int64.ofInt_toInt]
      exact ⟨_, _, rfl, .alloc h _, .int (Heap.get_alloc_self h _)⟩
  | list items ih =>
    have hall : ∃ rs g, evalAll look (items.map expr) h = .ok (rs, g) ∧ h.Extends g ∧
        List.Forall₂ g.Holds rs items := by
      have hitems : ∀ d ∈ items, ¬ d.HasLeast := fun d hd h => hleast (.list hd h)
      clear hleast
      induction items generalizing h with
      | nil =>
        rw [List.map_nil, evalAll]
        exact ⟨[], h, rfl, .refl h, .nil⟩
      | cons d items ihitems =>
        rw [List.forall_mem_cons] at ih hitems
        obtain ⟨r, g, heval, hgrow, hr⟩ := ih.1 hitems.1 h
        obtain ⟨rs, k, hevals, hgrows, hrs⟩ := ihitems ih.2 g hitems.2
        refine ⟨r :: rs, k, ?_, hgrow.trans hgrows, .cons (hr.mono hgrows) hrs⟩
        rw [List.map_cons, evalAll, run_bind, heval]
        dsimp only
        rw [run_bind, hevals]
        rfl
    obtain ⟨rs, g, hevals, hgrows, hrs⟩ := hall
    rw [expr_list, eval, run_bind, hevals]
    refine ⟨_, _, rfl, hgrows.trans (.alloc g _), ?_⟩
    exact .list_of_forall₂ (Heap.get_alloc_self g _) (hrs.imp fun _ _ hr => hr.mono (.alloc g _))

end Datum

/-! ### What is not read back -/

namespace Host

theorem Separated.mem {w : Spelling} {parts : List (List Spelling)} {inner part : List Spelling}
    (h : Separated parts inner) (hpart : part ∈ parts) (hw : w ∈ part) : w ∈ inner := by
  induction h with
  | nil => simp at hpart
  | last words =>
    rcases List.mem_singleton.1 hpart with rfl
    exact hw
  | more words _ ih =>
    rcases List.mem_cons.1 hpart with rfl | hpart
    · exact List.mem_append_left _ hw
    · exact List.mem_append_right _ (List.mem_cons_of_mem _ (ih hpart))

theorem Separated.of_mem {w : Spelling} {parts : List (List Spelling)} {inner : List Spelling}
    (h : Separated parts inner) (hw : w ∈ inner) : w = sign "," ∨ ∃ part ∈ parts, w ∈ part := by
  induction h with
  | nil => simp at hw
  | last words => exact .inr ⟨words, by simp, hw⟩
  | more words _ ih =>
    rcases List.mem_append.1 hw with hw | hw
    · exact .inr ⟨words, by simp, hw⟩
    rcases List.mem_cons.1 hw with rfl | hw
    · exact .inl rfl
    rcases ih hw with rfl | ⟨part, hpart, hw⟩
    · exact .inl rfl
    · exact .inr ⟨part, List.mem_cons_of_mem _ hpart, hw⟩

theorem CompareOp.number_notMem_words (op : CompareOp) (text : String) : (.number, text) ∉ op.words := by
  cases op <;> simp [CompareOp.words]

/-- The numbers of a phrase are numbers of the host. -/
theorem Forms.isSome_number? {level : Level} {words : List Spelling} {tree : Expr}
    (h : Forms level words tree) {text : String} (hmem : (.number, text) ∈ words) :
    (Parser.number? text).isSome := by
  have heach {parts : List (List Spelling × Expr)} {inner : List Spelling}
      (hseparated : Separated (parts.map Prod.fst) inner) (hw : (.number, text) ∈ inner) :
      ∃ part ∈ parts, (.number, text) ∈ part.1 := by
    simpa using hseparated.of_mem hw
  induction h with
  | number hvalue =>
    obtain rfl : text = _ := by simpa using hmem
    simp [hvalue]
  | compare _ _ _ ihfirst ihlinks =>
    rcases List.mem_append.1 hmem with hmem | hmem
    · exact ihfirst hmem
    · obtain ⟨link, hlink, hmem⟩ := List.mem_flatMap.1 hmem
      rcases List.mem_append.1 hmem with hmem | hmem
      · exact absurd hmem (link.op.number_notMem_words text)
      · exact ihlinks link hlink hmem
  | call _ _ hseparated ihtarget ihparts =>
    simp only [List.mem_append, List.mem_cons, Prod.mk.injEq, reduceCtorEq, false_and, false_or,
      List.not_mem_nil, or_false] at hmem
    rcases hmem with hmem | hmem
    · exact ihtarget hmem
    · obtain ⟨part, hpart, hmem⟩ := heach hseparated hmem
      exact ihparts part hpart hmem
  | list _ hseparated ihparts =>
    obtain ⟨part, hpart, hmem⟩ := heach hseparated (by simpa using hmem)
    exact ihparts part hpart hmem
  | _ => grind

/-- The words of a text on lines of its own, if they are known. -/
theorem wrappedWords_of_spaced {words : List Spelling} (hparts : Parts expressionSigns words)
    (hbalanced : Balanced words) (hne : words ≠ []) {body : String}
    (hbody : Scan.Spaced words body.toList) : wrappedWords body = words := by
  obtain ⟨tokens, hall, hwords⟩ := tokenizes_wrapped hparts.legible hparts.operators hbalanced hne hbody
  have hsource : Lexer.ofSource ("(\n" ++ body ++ "\n)") =
      Lexer.ofChars ('(' :: '\n' :: (body.toList ++ ['\n', ')'])) := by
    simp [Lexer.ofSource, stripMark, byteOrderMark]
  have hwrapped := Lexer.words_wrapped body.toList hsource (by rw [hall])
  rw [hall, Token.words, hwords] at hwrapped
  have hself : words.filter (fun w => w.1.isWord) = words := List.filter_eq_self.2 hbalanced.isWord
  have hfiltered : (sign "(" :: (.lineBreak, "\n") :: (words ++
      [(.lineBreak, "\n"), sign ")", (.newline, ""), (.endMarker, "")])).filter (fun w => w.1.isWord) =
        sign "(" :: (words ++ [sign ")"]) := by
    rw [List.filter_cons_of_pos (by rfl), List.filter_cons_of_neg (by decide), List.filter_append, hself]
    rfl
  rw [hfiltered] at hwrapped
  exact (List.append_cancel_right (List.cons_inj_right _ |>.1 hwrapped)).symm

end Host

namespace Datum

theorem digits_mem_words {d : Datum} (h : d.HasLeast) : digits Int64.minValue ∈ d.words := by
  induction h with
  | int =>
    rw [words, if_pos (by decide)]
    exact List.mem_cons_of_mem _ List.mem_cons_self
  | @list items d hd _ ih =>
    have hinner : digits Int64.minValue ∈ withCommas (items.map words) :=
      (separated_withCommas _).mem (List.mem_map_of_mem hd) ih
    rw [words_list]
    exact List.mem_cons_of_mem _ (List.mem_append_left _ hinner)

/-- The size of the least integer is no integer. -/
theorem number?_digits_least : ¬ (Parser.number? (digits Int64.minValue).2).isSome := by
  have hfits : (Decimal.fits? Int64.minValue.toInt.natAbs).isSome = false := by decide
  rw [digits, number?_repr, Option.isSome_map, hfits]
  exact Bool.false_ne_true

/-- **A written value with the least integer in it is not read.** -/
theorem parseExpression_text_ne_ok {d : Datum} (h : d.HasLeast) (e : Expr) :
    parseExpression d.text ≠ .ok e := by
  intro hread
  have hsentence := parseExpression_words hread
  rw [wrappedWords_of_spaced d.parts d.balanced d.words_ne_nil d.spaced_text] at hsentence
  have hsome := Forms.isSome_number? hsentence
    (List.mem_cons_of_mem _ (List.mem_append_left _ (digits_mem_words h)))
  exact number?_digits_least hsome

end Datum

namespace Host

variable {σ : Type}

/-- **The host makes a value from its written form,** unless the least integer occurs in it. What is made
has the tree of what was written and is equal to it, and nothing but the heap changes, which has more
objects. Text with the least integer in it is malformed, and changes nothing. -/
theorem repr_reads_back (s : Scene σ) {r : Ref} {d : Datum} (hr : s.heap.Holds r d) (column : Nat) :
    (¬ d.HasLeast → ∃ made heap,
      (Quoter.host.quoteExpression (s.heap.repr r) column).run s = (.ok made, { s with heap }) ∧
        s.heap.Extends heap ∧ heap.Holds made d ∧ heap.equal made r = true) ∧
    (d.HasLeast → ∃ e,
      (Quoter.host.quoteExpression (s.heap.repr r) column).run s = (.error (.eval (.malformed e)), s)) := by
  rw [hr.repr, run_quoteExpression]
  constructor
  · intro hleast
    obtain ⟨made, heap, heval, hgrow, hmade⟩ := Datum.eval_expr s.context.get? hleast s.heap
    refine ⟨made, heap, ?_, hgrow, hmade, hmade.equal (hr.mono hgrow)⟩
    rw [Datum.parseExpression_text hleast]
    dsimp only
    rw [run_evaluate, heval]
  · intro hleast
    cases hread : parseExpression d.text with
    | ok e => exact absurd hread (Datum.parseExpression_text_ne_ok hleast e)
    | error e => exact ⟨e, rfl⟩

/-- A list that holds one list twice, and a list with the least integer. -/
def sharingHeap : Heap :=
  ⟨#[.none, .bool true, .int (-5), .str "it's \"so\"\n", .list [⟨0⟩, ⟨1⟩, ⟨2⟩, ⟨3⟩], .list [⟨4⟩, ⟨4⟩],
    .int Int64.minValue, .list [⟨5⟩, ⟨6⟩]]⟩

/-- The tree of the inner list. -/
def innerDatum : Datum := .list [.none, .bool true, .int (-5), .str "it's \"so\"\n"]

theorem sharingHeap_holds_inner : sharingHeap.Holds ⟨4⟩ innerDatum := by
  refine .list_of_forall₂ rfl (.cons ?_ (.cons ?_ (.cons ?_ (.cons ?_ .nil))))
  · exact .none (by decide) rfl
  · exact .bool rfl
  · exact .int rfl
  · exact .str rfl

theorem sharingHeap_holds : sharingHeap.Holds ⟨5⟩ (.list [innerDatum, innerDatum]) :=
  .list_of_forall₂ rfl (.cons sharingHeap_holds_inner (.cons sharingHeap_holds_inner .nil))

theorem sharingHeap_holds_least :
    sharingHeap.Holds ⟨7⟩ (.list [.list [innerDatum, innerDatum], .int Int64.minValue]) :=
  .list_of_forall₂ rfl (.cons sharingHeap_holds (.cons (.int rfl) .nil))

theorem innerDatum_not_hasLeast : ¬ (Datum.list [innerDatum, innerDatum]).HasLeast := by
  have hinner : ¬ innerDatum.HasLeast := by
    intro h
    cases h with
    | list hd h =>
      simp only [List.mem_cons, List.not_mem_nil, or_false] at hd
      rcases hd with rfl | rfl | rfl | rfl <;> cases h
  intro h
  cases h with
  | list hd h =>
    obtain rfl : _ = innerDatum := by simpa using hd
    exact hinner h

/-- A scene with these values. -/
def sharingScene : Scene Unit := { heap := sharingHeap, context := default, world := () }

/-- The list of lists is read back, and the list with the least integer is not. -/
theorem sharingScene_reads_back :
    (∃ made heap,
      (Quoter.host.quoteExpression (sharingScene.heap.repr ⟨5⟩) 0).run sharingScene =
          (.ok made, { sharingScene with heap }) ∧
        sharingScene.heap.Extends heap ∧ heap.Holds made (.list [innerDatum, innerDatum]) ∧
          heap.equal made ⟨5⟩ = true) ∧
    ∃ e, (Quoter.host.quoteExpression (sharingScene.heap.repr ⟨7⟩) 0).run sharingScene =
      (.error (.eval (.malformed e)), sharingScene) :=
  ⟨(repr_reads_back sharingScene sharingHeap_holds 0).1 innerDatum_not_hasLeast,
    (repr_reads_back sharingScene sharingHeap_holds_least 0).2 (.list (by simp) .int)⟩

end Host

end Quasiquote
