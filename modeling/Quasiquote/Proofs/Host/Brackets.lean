import Quasiquote.Proofs.Host.Grammar
import Quasiquote.Proofs.Source.Words

/-!
# Brackets in host expressions

In an expression of the grammar, every closing bracket has its opening bracket before it. So an
expression that begins with a parenthesis has an expression in it, and ends with it or goes on behind it.

## Main Definitions

* `Host.Enclosed` — words that close no bracket that they have not opened
* `Host.Balanced` — words that close every bracket that they open, and no other

## Main Statements

* `Host.Forms.balanced` — expressions are balanced, and made of words alone
* `Host.Forms.opening` — an expression that begins with a parenthesis
* `Host.sentence_iff_enclosed` — what is left of an expression without its first and last word
-/

namespace Quasiquote.Host

/-! ### Counting brackets -/

/-- Whether a word opens a bracket. -/
def opens (w : Spelling) : Bool := w ∈ [sign "(", sign "[", sign "\x7b"]

/-- Whether a word closes a bracket. -/
def closes (w : Spelling) : Bool := w ∈ [sign ")", sign "]", sign "\x7d"]

/-- **Words that close no bracket that they have not opened.** -/
def Enclosed (words : List Spelling) : Prop :=
  ∀ n, (words.take n).countP closes ≤ (words.take n).countP opens

instance (words : List Spelling) : Decidable (Enclosed words) :=
  decidable_of_iff (∀ n < words.length + 1, (words.take n).countP closes ≤ (words.take n).countP opens)
    ⟨fun h n => by
      rcases Nat.lt_or_ge n (words.length + 1) with hn | hn
      · exact h n hn
      · rw [List.take_of_length_le (by omega)]
        simpa using h words.length (Nat.lt_succ_self _),
    fun h n _ => h n⟩

/-- A word that is no bracket. -/
def Plain (w : Spelling) : Prop := w.1.isWord = true ∧ opens w = false ∧ closes w = false

instance (w : Spelling) : Decidable (Plain w) :=
  inferInstanceAs (Decidable (w.1.isWord = true ∧ opens w = false ∧ closes w = false))

/-- **Words that close every bracket that they open, and no other.** There is no token for lines among
them. -/
structure Balanced (words : List Spelling) : Prop where
  isWord : ∀ w ∈ words, w.1.isWord = true
  enclosed : Enclosed words
  closed : words.countP closes = words.countP opens

namespace Balanced

theorem append {first second : List Spelling} (h : Balanced first) (h' : Balanced second) :
    Balanced (first ++ second) where
  isWord := List.forall_mem_append.2 ⟨h.isWord, h'.isWord⟩
  enclosed n := by
    have hfirst := h.enclosed n
    have hsecond := h'.enclosed (n - first.length)
    rw [List.take_append, List.countP_append, List.countP_append]
    omega
  closed := by rw [List.countP_append, List.countP_append, h.closed, h'.closed]

/-- Words that are no brackets are balanced. -/
theorem of_plain {words : List Spelling} (h : ∀ w ∈ words, Plain w) : Balanced words := by
  have hnone {p : Spelling → Bool} (hp : ∀ w ∈ words, p w = false) (n : Nat) :
      (words.take n).countP p = 0 :=
    List.countP_eq_zero.2 fun w hw => by simp [hp w (List.mem_of_mem_take hw)]
  have hopen := hnone fun w hw => (h w hw).2.1
  have hclose := hnone fun w hw => (h w hw).2.2
  refine ⟨fun w hw => (h w hw).1, fun n => Nat.le_of_eq ((hclose n).trans (hopen n).symm), ?_⟩
  have hall := hclose words.length
  rw [← hopen words.length, List.take_length] at hall
  exact hall

theorem nil : Balanced [] := of_plain (by simp)

theorem single {w : Spelling} (h : Plain w) : Balanced [w] :=
  of_plain fun _ hw => List.mem_singleton.1 hw ▸ h

theorem flatMap {ι : Type} {items : List ι} {f : ι → List Spelling}
    (h : ∀ item ∈ items, Balanced (f item)) : Balanced (items.flatMap f) := by
  induction items with
  | nil => exact nil
  | cons item items ih =>
    rw [List.forall_mem_cons] at h
    exact h.1.append (ih h.2)

/-- Balanced words with a word between them that is no bracket. -/
theorem around {w : Spelling} {left right : List Spelling} (hleft : Balanced left) (h : Plain w)
    (hright : Balanced right) : Balanced (left ++ w :: right) :=
  hleft.append ((single h).append hright)

/-- Balanced words in a bracket. -/
theorem bracket {first last : Spelling} {words : List Spelling} (h : Balanced words)
    (hfirst : first.1.isWord = true ∧ opens first = true ∧ closes first = false)
    (hlast : last.1.isWord = true ∧ opens last = false ∧ closes last = true) :
    Balanced (first :: (words ++ [last])) where
  isWord := by
    rw [List.forall_mem_cons, List.forall_mem_append, List.forall_mem_singleton]
    exact ⟨hfirst.1, h.isWord, hlast.1⟩
  enclosed n := by
    cases n with
    | zero => simp
    | succ n =>
      have hinner := h.enclosed n
      have hone : ([last].take (n - words.length)).countP closes ≤ 1 :=
        Nat.le_trans List.countP_le_length (List.length_take_le' _ [last])
      simp only [List.take_succ_cons, List.countP_cons, List.take_append, List.countP_append,
        hfirst.2.1, hfirst.2.2, Bool.false_eq_true, if_true, if_false]
      omega
  closed := by simp [hfirst, hlast, h.closed]

end Balanced

/-- Only an operator can be a bracket. -/
theorem plain_of_ne_operator {w : Spelling} (hword : w.1.isWord = true) (h : w.1 ≠ .operator) :
    Plain w := by
  obtain ⟨kind, text⟩ := w
  simp_all [Plain, opens, closes]

theorem BinaryOp.plain (op : BinaryOp) : Plain (sign op.symbol) := by
  cases op <;> decide

theorem UnaryOp.plain (op : UnaryOp) : Plain (sign op.symbol) := by
  cases op <;> decide

theorem CompareOp.plain (op : CompareOp) : ∀ w ∈ op.words, Plain w := by
  cases op <;> decide

theorem Separated.balanced {parts : List (List Spelling)} {inner : List Spelling}
    (h : Separated parts inner) (hparts : ∀ part ∈ parts, Balanced part) : Balanced inner := by
  induction h with
  | nil => exact .nil
  | last words => exact hparts words (by simp)
  | more words _ ih =>
    rw [List.forall_mem_cons] at hparts
    exact hparts.1.around (by decide) (ih hparts.2)

namespace Forms

/-- **An expression closes every bracket that it opens, and no other.** -/
theorem balanced {level : Level} {words : List Spelling} {tree : Expr} (h : Forms level words tree) :
    Balanced words := by
  induction h with
  | ifElse _ _ _ hbody hcondition horElse =>
    exact hbody.around (by decide) (hcondition.around (by decide) horElse)
  | or _ _ hl hr => exact hl.around (by decide) hr
  | and _ _ hl hr => exact hl.around (by decide) hr
  | not _ h => exact Balanced.nil.around (by decide) h
  | @compare _ _ links _ _ _ hfirst hlinks =>
    refine hfirst.append (.flatMap fun link hlink => ?_)
    exact (Balanced.of_plain link.op.plain).append (hlinks link hlink)
  | @binary op _ _ _ _ _ _ _ _ _ hl hr => exact hl.around op.plain hr
  | signed op _ h => exact Balanced.nil.around op.plain h
  | raised _ _ hb hr => exact hb.around (by decide) hr
  | index _ _ hw hp => exact hw.append (hp.bracket (by decide) (by decide))
  | call _ _ hseparated hw hparts =>
    exact hw.append ((hseparated.balanced (List.forall_mem_map.2 hparts)).bracket (by decide) (by decide))
  | number => exact .single (plain_of_ne_operator rfl (by simp))
  | strings => exact .of_plain (List.forall_mem_map.2 fun _ _ => plain_of_ne_operator rfl (by simp))
  | true => exact .single (by decide)
  | false => exact .single (by decide)
  | none => exact .single (by decide)
  | name => exact .single (plain_of_ne_operator rfl (by simp))
  | parentheses _ h => exact h.bracket (by decide) (by decide)
  | list _ hseparated hparts =>
    exact (hseparated.balanced (List.forall_mem_map.2 hparts)).bracket (by decide) (by decide)
  | conditional _ h => exact h
  | disjunction _ h => exact h
  | conjunction _ h => exact h
  | negation _ h => exact h
  | comparison _ h => exact h
  | looser _ h => exact h
  | operand _ h => exact h
  | unary _ h => exact h
  | power _ h => exact h
  | primary _ h => exact h

/-- An expression is not empty. -/
theorem ne_nil {level : Level} {words : List Spelling} {tree : Expr} (h : Forms level words tree) :
    words ≠ [] := by
  induction h with
  | strings hne => simpa using hne
  | compare _ _ _ hfirst => simp [hfirst]
  | conditional _ h => exact h
  | disjunction _ h => exact h
  | conjunction _ h => exact h
  | negation _ h => exact h
  | comparison _ h => exact h
  | looser _ h => exact h
  | operand _ h => exact h
  | unary _ h => exact h
  | power _ h => exact h
  | primary _ h => exact h
  | _ => simp

end Forms

/-! ### Expressions that begin with a parenthesis -/

theorem CompareOp.words_ne_nil (op : CompareOp) : op.words ≠ [] := by
  cases op <;> simp [words]

/-- **If these words begin with a parenthesis, an expression is in it.** Unless more words follow the
closing parenthesis, its tree is that of all the words. -/
def Opening (words : List Spelling) (tree : Expr) : Prop :=
  ∀ tail, words = sign "(" :: tail → ∃ inner more tree', Sentence inner tree' ∧
    tail = inner ++ sign ")" :: more ∧ (more = [] → tree' = tree)

/-- What begins words that go on behind it begins with the same expression. -/
theorem Opening.append {left right : List Spelling} {tree : Expr} (h : Opening left tree)
    (hleft : left ≠ []) (hright : right ≠ []) (tree' : Expr) : Opening (left ++ right) tree' := by
  intro tail hwords
  obtain ⟨w, left, rfl⟩ := List.exists_cons_of_ne_nil hleft
  rw [List.cons_append, List.cons.injEq] at hwords
  obtain ⟨rfl, rfl⟩ := hwords
  obtain ⟨inner, more, found, hinner, rfl, -⟩ := h left rfl
  exact ⟨inner, more ++ right, found, hinner, by simp, fun hnone => by simp_all⟩

/-- Words that begin with another word have nothing to show. -/
theorem opening_cons {w : Spelling} (h : w ≠ sign "(") (words : List Spelling) (tree : Expr) :
    Opening (w :: words) tree := by
  intro tail hwords
  rw [List.cons.injEq] at hwords
  exact absurd hwords.1 h

theorem Forms.opening {level : Level} {words : List Spelling} {tree : Expr}
    (h : Forms level words tree) : Opening words tree := by
  induction h with
  | ifElse hb _ _ ih => exact ih.append hb.ne_nil (by simp) _
  | or hl _ ih => exact ih.append hl.ne_nil (by simp) _
  | and hl _ ih => exact ih.append hl.ne_nil (by simp) _
  | not => exact opening_cons (by simp) _ _
  | @compare _ _ links hw hlinks _ ih =>
    refine ih.append hw.ne_nil ?_ _
    obtain ⟨link, links, rfl⟩ := List.exists_cons_of_ne_nil hlinks
    simp [Link.spelled, CompareOp.words_ne_nil]
  | binary _ _ hl _ ih => exact ih.append hl.ne_nil (by simp) _
  | signed op => exact opening_cons (by cases op <;> decide) _ _
  | raised hb _ ih => exact ih.append hb.ne_nil (by simp) _
  | index hw _ ih => exact ih.append hw.ne_nil (by simp) _
  | call hw _ _ ih => exact ih.append hw.ne_nil (by simp) _
  | number => exact opening_cons (by simp) _ _
  | @strings literals _ hne =>
    obtain ⟨literal, literals, rfl⟩ := List.exists_cons_of_ne_nil hne
    exact opening_cons (by simp) _ _
  | true => exact opening_cons (by simp) _ _
  | false => exact opening_cons (by simp) _ _
  | none => exact opening_cons (by simp) _ _
  | name => exact opening_cons (by simp) _ _
  | @parentheses w e h =>
    intro tail hwords
    rw [List.cons.injEq] at hwords
    exact ⟨w, [], e, h, hwords.2.symm, fun _ => rfl⟩
  | list => exact opening_cons (by simp) _ _
  | conditional _ ih => exact ih
  | disjunction _ ih => exact ih
  | conjunction _ ih => exact ih
  | negation _ ih => exact ih
  | comparison _ ih => exact ih
  | looser _ ih => exact ih
  | operand _ ih => exact ih
  | unary _ ih => exact ih
  | power _ ih => exact ih
  | primary _ ih => exact ih

/-- **An expression without its parentheses is an expression exactly if it is enclosed.** Otherwise the
first of the two parentheses is closed before the last word. -/
theorem sentence_iff_enclosed {words : List Spelling} {tree : Expr}
    (h : Sentence (sign "(" :: (words ++ [sign ")"])) tree) :
    Sentence words tree ↔ Enclosed words := by
  refine ⟨fun hwords => hwords.balanced.enclosed, fun henclosed => ?_⟩
  obtain ⟨inner, more, tree', hinner, hsplit, htree⟩ := h.opening _ rfl
  rcases List.eq_nil_or_concat more with rfl | ⟨front, last, rfl⟩
  · rw [List.append_cancel_right_eq] at hsplit
    rwa [hsplit, ← htree rfl]
  · -- the parenthesis that closes the first one stands among the words
    exfalso
    rw [List.concat_eq_append, ← List.cons_append, ← List.append_assoc] at hsplit
    obtain rfl : words = inner ++ sign ")" :: front := (List.append_inj' hsplit rfl).1
    have hcount := henclosed (inner.length + 1)
    rw [List.append_cons, List.take_left' (by simp), List.countP_append, List.countP_append,
      hinner.balanced.closed] at hcount
    simp only [List.countP_singleton, show closes (sign ")") = true from rfl,
      show opens (sign ")") = false from rfl, Bool.false_eq_true, if_true, if_false] at hcount
    omega

end Quasiquote.Host
