import Quasiquote.Proofs.Host.Brackets
import Quasiquote.Proofs.Host.Follow

/-!
# Every expression is read

A phrase of the grammar is read by the rule of its level, with its tree as the result, where nothing
behind it goes on with it.

## Main Definitions

* `Host.Parser.Parses` — a rule that reads a phrase
* `Host.Parser.Leads` — a rule that reads a phrase and goes on with what may follow it
* `Host.Parser.Complete` — what the rules for a level do with a phrase of that level

## Main Statements

* `Host.Parser.complete` — the rules are complete
* `Host.Parser.expr_complete` — a sentence is read as its tree

## Design Notes

The grammar adds an operand on the right of a phrase, and so does the parser, in a loop. What is claimed
of a phrase that can go on like this is that its rule comes to the point where the loop has the tree of
the phrase in hand. The depth counts twenty for each word, so that there is always enough of it left for
the next operand.
-/

namespace Quasiquote.Host.Parser

variable {α : Type} {ts rest : List Token} {words : List Spelling} {tree : Expr} {t : Token}

/-! ### Rules that read a phrase -/

/-- **A rule that reads a phrase,** where nothing behind it goes on with it. The deeper the rule's own
operands lie, the more depth it needs. -/
def Parses (level : Level) (rule : Nat → Rule Expr) (height : Nat) (words : List Spelling)
    (tree : Expr) : Prop :=
  ∀ ⦃n : Nat⦄ ⦃ts rest : List Token⦄, ts.map Token.spelling = words →
    20 * words.length + height ≤ n + 20 → Stops level rest →
    (rule n).run (ts ++ rest) = .ok (tree, rest)

/-- **A rule that comes to read what follows a phrase,** with the tree of the phrase in hand. -/
def Leads (level : Level) (rule : Nat → Rule Expr) (tail : Nat → Expr → Rule Expr) (height : Nat)
    (words : List Spelling) (tree : Expr) : Prop :=
  ∀ ⦃n : Nat⦄ ⦃ts rest : List Token⦄, ts.map Token.spelling = words →
    20 * words.length + height ≤ n + 20 → Stops level rest →
    ∃ m, n ≤ m + words.length ∧ (rule n).run (ts ++ rest) = (tail m tree).run rest

/-- Where nothing follows that the rule could go on with, it has read the phrase. -/
theorem Leads.parses {loose tight : Level} {rule : Nat → Rule Expr} {tail : Nat → Expr → Rule Expr}
    {height : Nat} (h : Leads tight rule tail height words tree) (hne : words ≠ [])
    (hheight : 2 ≤ height) (hmono : ∀ w, tight.continues w = true → loose.continues w = true)
    (htail : ∀ (m : Nat) (rest : List Token), Stops loose rest →
      (tail (m + 1) tree).run rest = .ok (tree, rest)) :
    Parses loose rule height words tree := by
  intro n ts rest hts hn hrest
  obtain ⟨m, hm, hrun⟩ := h hts hn (hrest.mono hmono)
  have hpos : 0 < words.length := List.length_pos_iff.2 hne
  obtain ⟨m, rfl⟩ : ∃ k, m = k + 1 := ⟨m - 1, by omega⟩
  rw [hrun, htail m rest hrest]

/-- **What the rules for a level do with a phrase.** -/
def Complete : Level → List Spelling → Expr → Prop
  | .conditional => Parses .conditional expr 10
  | .disjunction => Leads .conjunction orTest orTail 9
  | .conjunction => Leads .negation andTest andTail 8
  | .negation => Parses .negation notTest 7
  | .comparison => Parses .comparison comparison 6
  | .operand strength => fun words tree => ∀ least ≤ strength,
      Leads (.operand (strength + 1)) (binary · least) (binaryTail · least) 5 words tree
  | .unary => Parses .unary unary 4
  | .power => Parses .power power 3
  | .primary => Leads .atom (fun n => atom n >>= trailers n) trailers 2
  | .atom => Parses .atom atom 1

/-- The tokens of words on both sides of a word. -/
theorem tokens_around {w : Spelling} {left right : List Spelling}
    (h : ts.map Token.spelling = left ++ w :: right) :
    ∃ ls t rs, ts = ls ++ t :: rs ∧ ls.map Token.spelling = left ∧ t.spelling = w ∧
      rs.map Token.spelling = right := by
  obtain ⟨ls, more, rfl, hls, hmore⟩ := List.map_eq_append_iff.1 h
  obtain ⟨t, rs, rfl, ht, hrs⟩ := List.map_eq_cons_iff.1 hmore
  exact ⟨ls, t, rs, rfl, hls, ht, hrs⟩

/-- The tokens of words in brackets, behind the opening one. -/
theorem tokens_closed {w : Spelling} (h : ts.map Token.spelling = words ++ [w]) :
    ∃ ls t, ts = ls ++ [t] ∧ ls.map Token.spelling = words ∧ t.spelling = w := by
  obtain ⟨ls, more, rfl, hls, hmore⟩ := List.map_eq_append_iff.1 h
  obtain ⟨t, rfl, ht⟩ := List.map_eq_singleton_iff.1 hmore
  exact ⟨ls, t, rfl, hls, ht⟩

/-- A phrase does not begin with a word with which phrases of its level do not begin. -/
theorem ne_of_starts {p : Spelling → Bool} {w : Spelling}
    (h : Starts p words) (hts : ts.map Token.spelling = words) (hw : p w = false) :
    ∀ t ∈ (ts ++ rest).head?, t.spelling ≠ w := by
  obtain ⟨first, more, rfl, hfirst⟩ := h
  obtain ⟨t, ts, rfl, ht, -⟩ := List.map_eq_cons_iff.1 hts
  rintro t' ht' rfl
  obtain rfl : t = t' := by simpa using ht'
  rw [ht, hfirst] at hw
  cases hw

section Cases

variable {left right : List Spelling} {leftTree rightTree : Expr}

/-! ### Conditionals, disjunctions, conjunctions and negations -/

theorem orTail_of_stops (m : Nat) (rest : List Token) (h : Stops .disjunction rest) :
    (orTail (m + 1) tree).run rest = .ok (tree, rest) := by
  rw [orTail, run_ifWord_of_ne _ _ (h.ne (by decide))]
  rfl

theorem andTail_of_stops (m : Nat) (rest : List Token) (h : Stops .conjunction rest) :
    (andTail (m + 1) tree).run rest = .ok (tree, rest) := by
  rw [andTail, run_ifWord_of_ne _ _ (h.ne (by decide))]
  rfl

theorem continues_disjunction {w : Spelling} (h : Level.conjunction.continues w = true) :
    Level.disjunction.continues w = true := by
  simp only [Level.continues, Bool.or_eq_true] at h ⊢
  exact .inl h

theorem orTest_parses (hne : words ≠ []) (h : Complete .disjunction words tree) :
    Parses .disjunction orTest 9 words tree :=
  h.parses hne (by decide) (fun _ => continues_disjunction) orTail_of_stops

theorem continues_conjunction {w : Spelling} (h : Level.negation.continues w = true) :
    Level.conjunction.continues w = true := by
  simp only [Level.continues, Bool.or_eq_true] at h ⊢
  exact .inl h

theorem andTest_parses (hne : words ≠ []) (h : Complete .conjunction words tree) :
    Parses .conjunction andTest 8 words tree :=
  h.parses hne (by decide) (fun _ => continues_conjunction) andTail_of_stops

theorem complete_ifElse {b c o : List Spelling} {body condition orElse : Expr} (hb : b ≠ [])
    (hc : c ≠ []) (hbody : Complete .disjunction b body) (hcondition : Complete .disjunction c condition)
    (horElse : Complete .conditional o orElse) :
    Complete .conditional (b ++ word "if" :: (c ++ word "else" :: o)) (.ifElse condition body orElse) := by
  intro n ts rest hts hn hrest
  obtain ⟨bs, t, more, rfl, hbs, ht, hmore⟩ := tokens_around hts
  obtain ⟨cs, t', os, rfl, hcs, ht', hos⟩ := tokens_around hmore
  simp only [List.length_append, List.length_cons] at hn
  obtain ⟨n, rfl⟩ : ∃ k, n = k + 1 := ⟨n - 1, by omega⟩
  simp only [List.append_assoc, List.cons_append]
  rw [expr, run_bind_of_ok (orTest_parses hb hbody hbs (by omega) (stops_cons ht (by decide))),
    run_ifWord_of_eq _ _ ht,
    run_bind_of_ok (orTest_parses hc hcondition hcs (by omega) (stops_cons ht' (by decide))),
    run_ifWord_of_eq _ _ ht', run_bind_of_ok (horElse hos (by omega) hrest)]
  rfl

theorem complete_conditional (hne : words ≠ []) (h : Complete .disjunction words tree) :
    Complete .conditional words tree := by
  intro n ts rest hts hn hrest
  have hpos : 0 < words.length := List.length_pos_iff.2 hne
  obtain ⟨n, rfl⟩ : ∃ k, n = k + 1 := ⟨n - 1, by omega⟩
  have hstops : Stops .disjunction rest := hrest.mono fun w hw => by
    simp only [Level.continues, Bool.or_eq_true] at hw ⊢
    exact .inl hw
  rw [expr, run_bind_of_ok (orTest_parses hne h hts (by omega) hstops),
    run_ifWord_of_ne _ _ (hrest.ne (by decide))]
  rfl

theorem complete_or (hr : right ≠ []) (hleft : Complete .disjunction left leftTree)
    (hright : Complete .conjunction right rightTree) :
    Complete .disjunction (left ++ word "or" :: right) (.or leftTree rightTree) := by
  intro n ts rest hts hn hrest
  obtain ⟨ls, t, rs, rfl, hls, ht, hrs⟩ := tokens_around hts
  simp only [List.length_append, List.length_cons] at hn ⊢
  rw [List.append_assoc, List.cons_append]
  obtain ⟨m, hm, hrun⟩ := hleft (n := n) hls (by omega) (stops_cons ht (by decide))
  obtain ⟨m, rfl⟩ : ∃ k, m = k + 1 := ⟨m - 1, by omega⟩
  refine ⟨m, by omega, ?_⟩
  rw [hrun, orTail, run_ifWord_of_eq _ _ ht,
    run_bind_of_ok (andTest_parses hr hright hrs (by omega) hrest)]

theorem complete_disjunction (hne : words ≠ []) (h : Complete .conjunction words tree) :
    Complete .disjunction words tree := by
  intro n ts rest hts hn hrest
  have hpos : 0 < words.length := List.length_pos_iff.2 hne
  obtain ⟨n, rfl⟩ : ∃ k, n = k + 1 := ⟨n - 1, by omega⟩
  refine ⟨n, by omega, ?_⟩
  rw [orTest, run_bind_of_ok (andTest_parses hne h hts (by omega) hrest)]

theorem complete_and (hleft : Complete .conjunction left leftTree)
    (hright : Complete .negation right rightTree) :
    Complete .conjunction (left ++ word "and" :: right) (.and leftTree rightTree) := by
  intro n ts rest hts hn hrest
  obtain ⟨ls, t, rs, rfl, hls, ht, hrs⟩ := tokens_around hts
  simp only [List.length_append, List.length_cons] at hn ⊢
  rw [List.append_assoc, List.cons_append]
  obtain ⟨m, hm, hrun⟩ := hleft (n := n) hls (by omega) (stops_cons ht (by decide))
  obtain ⟨m, rfl⟩ : ∃ k, m = k + 1 := ⟨m - 1, by omega⟩
  refine ⟨m, by omega, ?_⟩
  rw [hrun, andTail, run_ifWord_of_eq _ _ ht, run_bind_of_ok (hright hrs (by omega) hrest)]

theorem complete_conjunction (hne : words ≠ []) (h : Complete .negation words tree) :
    Complete .conjunction words tree := by
  intro n ts rest hts hn hrest
  have hpos : 0 < words.length := List.length_pos_iff.2 hne
  obtain ⟨n, rfl⟩ : ∃ k, n = k + 1 := ⟨n - 1, by omega⟩
  refine ⟨n, by omega, ?_⟩
  rw [andTest, run_bind_of_ok (h hts (by omega) hrest)]

theorem complete_not (h : Complete .negation words tree) :
    Complete .negation (word "not" :: words) (.not tree) := by
  intro n ts rest hts hn hrest
  obtain ⟨t, ts, rfl, ht, hts⟩ := List.map_eq_cons_iff.1 hts
  rw [List.length_cons] at hn
  obtain ⟨n, rfl⟩ : ∃ k, n = k + 1 := ⟨n - 1, by omega⟩
  rw [List.cons_append, notTest, run_ifWord_of_eq _ _ ht, run_bind_of_ok (h hts (by omega) hrest)]
  rfl

theorem complete_negation (hstarts : Starts Level.beginsOperand words)
    (h : Complete .comparison words tree) : Complete .negation words tree := by
  intro n ts rest hts hn hrest
  have hpos : 0 < words.length := by
    obtain ⟨w, more, rfl, -⟩ := hstarts
    exact Nat.succ_pos _
  obtain ⟨n, rfl⟩ : ∃ k, n = k + 1 := ⟨n - 1, by omega⟩
  have hnot : ∀ t ∈ (ts ++ rest).head?, t.spelling ≠ word "not" := ne_of_starts hstarts hts (by decide)
  rw [notTest, run_ifWord_of_ne _ _ hnot, h hts (by omega) hrest]

/-! ### Operands and comparisons -/

theorem binaryTail_of_stops {least : Nat} (m : Nat) (rest : List Token)
    (h : Stops (.operand least) rest) : (binaryTail (m + 1) least tree).run rest = .ok (tree, rest) := by
  rw [binaryTail, run_bind_of_ok (run_binaryOp?_of_stops h)]
  rfl

theorem continues_operand {strong weak : Nat} (h : weak ≤ strong) {w : Spelling}
    (hw : (Level.operand strong).continues w = true) : (Level.operand weak).continues w = true := by
  simp only [Level.continues, Level.continuesOperand, Bool.or_eq_true, List.any_eq_true,
    Bool.and_eq_true, decide_eq_true_eq] at hw ⊢
  rcases hw with hw | ⟨op, hop, hstrength, hw⟩
  · exact .inl hw
  · exact .inr ⟨op, hop, by omega, hw⟩

theorem binary_parses {strength : Nat} (hne : words ≠ [])
    (h : Complete (.operand strength) words tree) :
    Parses (.operand strength) (binary · strength) 5 words tree :=
  (h strength (Nat.le_refl _)).parses hne (by decide)
    (fun _ => continues_operand (Nat.le_succ strength)) binaryTail_of_stops

theorem complete_binary {op : BinaryOp} {strength : Nat} (hop : op ∈ BinaryOp.leftAssociative)
    (hstrength : op.strength = strength + 1) (hr : right ≠ [])
    (hleft : Complete (.operand strength) left leftTree)
    (hright : Complete (.operand (strength + 1)) right rightTree) :
    Complete (.operand strength) (left ++ sign op.symbol :: right) (.binary op leftTree rightTree) := by
  intro least hleast n ts rest hts hn hrest
  obtain ⟨ls, t, rs, rfl, hls, ht, hrs⟩ := tokens_around hts
  simp only [List.length_append, List.length_cons] at hn ⊢
  rw [List.append_assoc, List.cons_append]
  have hstops : Stops (.operand (strength + 1)) (t :: (rs ++ rest)) := by
    refine stops_cons ht ?_
    have hall : ∀ op ∈ BinaryOp.leftAssociative,
        (Level.operand op.strength).continues (sign op.symbol) = false := by decide
    rw [← hstrength]
    exact hall op hop
  obtain ⟨m, hm, hrun⟩ := hleft least hleast (n := n) hls (by omega) hstops
  obtain ⟨m, rfl⟩ : ∃ k, m = k + 1 := ⟨m - 1, by omega⟩
  refine ⟨m, by omega, ?_⟩
  dsimp only at hrun ⊢
  rw [hrun, binaryTail, run_bind_of_ok (run_binaryOp?_of_eq hop (by omega) ht)]
  dsimp only
  rw [hstrength, run_bind_of_ok (binary_parses hr hright hrs (by omega) hrest)]

theorem complete_looser {strength : Nat} (h : Complete (.operand (strength + 1)) words tree) :
    Complete (.operand strength) words tree := by
  intro least hleast n ts rest hts hn hrest
  exact h least (by omega) hts hn (hrest.mono fun _ => continues_operand (Nat.le_succ _))

/-- No operator binds tighter than products do. -/
theorem continues_unary {w : Spelling} (h : Level.unary.continues w = true) (strength : Nat) :
    (Level.operand strength).continues w = true := by
  simp only [Level.continues, Level.continuesOperand, Bool.or_eq_true] at h ⊢
  exact .inl h

theorem complete_operand (hne : words ≠ []) (h : Complete .unary words tree) :
    Complete (.operand 6) words tree := by
  intro least hleast n ts rest hts hn hrest
  have hpos : 0 < words.length := List.length_pos_iff.2 hne
  obtain ⟨n, rfl⟩ : ∃ k, n = k + 1 := ⟨n - 1, by omega⟩
  refine ⟨n, by omega, ?_⟩
  dsimp only
  rw [binary, run_bind_of_ok (h hts (by omega) (hrest.mono fun _ hw => continues_unary hw _))]

/-- The next comparison of a chain does not go on with the operand before it. -/
theorem stops_links {links : List Link} (hts : ts.map Token.spelling = links.flatMap Link.spelled)
    (hrest : Stops .comparison rest) : Stops (.operand 0) (ts ++ rest) := by
  cases links with
  | nil =>
    obtain rfl := List.map_eq_nil_iff.1 hts
    exact hrest.mono fun w hw => by
      simp only [Level.continues, Level.continuesComparison, Bool.or_eq_true] at hw ⊢
      exact .inl hw
  | cons link links =>
    have hop : ∀ w ∈ link.op.words.head?, (Level.operand 0).continues w = false := by
      cases link.op <;> decide
    obtain ⟨w, more, hwords⟩ := List.exists_cons_of_ne_nil (CompareOp.words_ne_nil link.op)
    rw [List.flatMap_cons, Link.spelled, hwords] at hts
    obtain ⟨t, ts, rfl, ht, -⟩ := List.map_eq_cons_iff.1 hts
    exact stops_cons ht (hop w (by simp [hwords]))

/-- The comparisons of a chain are read, one after the other. -/
theorem compareTail_links {links : List Link}
    (hforms : ∀ link ∈ links, Forms (.operand 0) link.words link.operand)
    (hlinks : ∀ link ∈ links, Complete (.operand 0) link.words link.operand) :
    ∀ {n : Nat} {ts : List Token}, ts.map Token.spelling = links.flatMap Link.spelled →
      20 * ts.length < n → Stops .comparison rest →
      (compareTail n).run (ts ++ rest) = .ok (links.map Link.pair, rest) := by
  induction links with
  | nil =>
    intro n ts hts hn hrest
    obtain rfl := List.map_eq_nil_iff.1 hts
    obtain ⟨n, rfl⟩ : ∃ k, n = k + 1 := ⟨n - 1, by omega⟩
    rw [List.nil_append, compareTail, run_bind_of_ok (run_compareOp?_of_stops hrest)]
    rfl
  | cons link links ih =>
    intro n ts hts hn hrest
    rw [List.forall_mem_cons] at hforms hlinks
    rw [List.flatMap_cons, Link.spelled, List.append_assoc] at hts
    obtain ⟨ops, more, rfl, hops, hmore⟩ := List.map_eq_append_iff.1 hts
    obtain ⟨rs, later, rfl, hrs, hlater⟩ := List.map_eq_append_iff.1 hmore
    have hrpos : 0 < rs.length := by
      rw [← List.length_map, hrs]
      exact List.length_pos_iff.2 hforms.1.ne_nil
    have hlength : link.words.length = rs.length := by rw [← hrs, List.length_map]
    simp only [List.length_append] at hn
    obtain ⟨n, rfl⟩ : ∃ k, n = k + 1 := ⟨n - 1, by omega⟩
    have hopsPos : 0 < ops.length := by
      rw [← List.length_map, hops]
      exact List.length_pos_iff.2 link.op.words_ne_nil
    have hnot : ∀ t ∈ (rs ++ (later ++ rest)).head?, t.spelling ≠ word "not" :=
      ne_of_starts hforms.1.starts hrs (by decide)
    simp only [List.append_assoc]
    rw [compareTail, run_bind_of_ok (run_compareOp?_of_eq hops hnot)]
    dsimp only
    rw [run_bind_of_ok (binary_parses hforms.1.ne_nil hlinks.1 hrs (by omega) (stops_links hlater hrest)),
      run_bind_of_ok (ih hforms.2 hlinks.2 hlater (by omega) hrest)]
    rfl

theorem complete_compare {links : List Link} (hw : words ≠ []) (hne : links ≠ [])
    (hforms : ∀ link ∈ links, Forms (.operand 0) link.words link.operand)
    (hfirst : Complete (.operand 0) words tree)
    (hlinks : ∀ link ∈ links, Complete (.operand 0) link.words link.operand) :
    Complete .comparison (words ++ links.flatMap Link.spelled) (.compare tree (links.map Link.pair)) := by
  intro n ts rest hts hn hrest
  obtain ⟨fs, cs, rfl, hfs, hcs⟩ := List.map_eq_append_iff.1 hts
  have hpos : 0 < words.length := List.length_pos_iff.2 hw
  have hlength : (links.flatMap Link.spelled).length = cs.length := by rw [← hcs, List.length_map]
  rw [List.length_append] at hn
  obtain ⟨n, rfl⟩ : ∃ k, n = k + 1 := ⟨n - 1, by omega⟩
  have hchain : (links.map Link.pair).isEmpty = false := by simpa using hne
  rw [List.append_assoc, comparison,
    run_bind_of_ok (binary_parses hw hfirst hfs (by omega) (stops_links hcs hrest)),
    run_bind_of_ok (compareTail_links hforms hlinks hcs (by omega) hrest), hchain]
  rfl

theorem complete_comparison (hne : words ≠ []) (h : Complete (.operand 0) words tree) :
    Complete .comparison words tree := by
  intro n ts rest hts hn hrest
  have hpos : 0 < words.length := List.length_pos_iff.2 hne
  obtain ⟨n, rfl⟩ : ∃ k, n = k + 1 := ⟨n - 1, by omega⟩
  -- a chain without comparisons
  have hnone : ([] : List Token).map Token.spelling = ([] : List Link).flatMap Link.spelled := rfl
  have hstops := stops_links hnone hrest
  have hlinks := compareTail_links (by simp) (by simp) hnone
    (show 20 * ([] : List Token).length < n by rw [List.length_nil]; omega) hrest
  rw [List.nil_append] at hlinks hstops
  rw [comparison, run_bind_of_ok (binary_parses hne h hts (by omega) hstops), run_bind_of_ok hlinks]
  rfl

/-! ### Signs and powers -/

theorem complete_signed (op : UnaryOp) (h : Complete .unary words tree) :
    Complete .unary (sign op.symbol :: words) (.unary op tree) := by
  intro n ts rest hts hn hrest
  obtain ⟨t, ts, rfl, ht, hts⟩ := List.map_eq_cons_iff.1 hts
  rw [List.length_cons] at hn
  obtain ⟨n, rfl⟩ : ∃ k, n = k + 1 := ⟨n - 1, by omega⟩
  rw [List.cons_append, unary, run_bind_of_ok (run_unaryOp?_of_eq ht)]
  dsimp only
  rw [run_bind_of_ok (h hts (by omega) hrest)]
  rfl

theorem complete_unary (hstarts : Starts Level.beginsAtom words) (h : Complete .power words tree) :
    Complete .unary words tree := by
  intro n ts rest hts hn hrest
  have hpos : 0 < words.length := by
    obtain ⟨w, more, rfl, -⟩ := hstarts
    exact Nat.succ_pos _
  obtain ⟨n, rfl⟩ : ∃ k, n = k + 1 := ⟨n - 1, by omega⟩
  have hsign : ∀ op : UnaryOp, ∀ t ∈ (ts ++ rest).head?, t.spelling ≠ sign op.symbol :=
    fun op => ne_of_starts hstarts hts (by cases op <;> decide)
  rw [unary, run_bind_of_ok (run_unaryOp?_of_ne hsign)]
  exact h hts (by omega) hrest

theorem trailers_of_stops (m : Nat) (rest : List Token) (h : Stops .primary rest) :
    (trailers (m + 1) tree).run rest = .ok (tree, rest) := by
  have hcall : (rest.headD endToken).isOperator "(" = false :=
    isText_headD_eq_false (by decide) (h.ne (by decide))
  rw [trailers.eq_def]
  dsimp only
  rw [run_ifOperator_of_ne _ _ (h.ne (by decide)), run_bind_of_ok (run_peek rest), hcall]
  rfl

theorem primary_parses (hne : words ≠ []) (h : Complete .primary words tree) :
    Parses .primary (fun n => atom n >>= trailers n) 2 words tree :=
  h.parses hne (by decide)
    (fun w hw => by
      simp only [Level.continues, Level.continuesPrimary, Bool.or_eq_true] at hw ⊢
      exact .inl hw)
    trailers_of_stops

theorem complete_raised (hl : left ≠ []) (hleft : Complete .primary left leftTree)
    (hright : Complete .unary right rightTree) :
    Complete .power (left ++ sign "**" :: right) (.binary .pow leftTree rightTree) := by
  intro n ts rest hts hn hrest
  obtain ⟨ls, t, rs, rfl, hls, ht, hrs⟩ := tokens_around hts
  simp only [List.length_append, List.length_cons] at hn
  obtain ⟨n, rfl⟩ : ∃ k, n = k + 1 := ⟨n - 1, by omega⟩
  rw [List.append_assoc, List.cons_append, power, ← bind_assoc,
    run_bind_of_ok (primary_parses hl hleft hls (by omega) (stops_cons ht (by decide))),
    run_ifOperator_of_eq _ _ ht, run_bind_of_ok (hright hrs (by omega) hrest)]
  rfl

theorem complete_power (hne : words ≠ []) (h : Complete .primary words tree) :
    Complete .power words tree := by
  intro n ts rest hts hn hrest
  have hpos : 0 < words.length := List.length_pos_iff.2 hne
  obtain ⟨n, rfl⟩ : ∃ k, n = k + 1 := ⟨n - 1, by omega⟩
  have hstops : Stops .primary rest := hrest.mono fun w hw => by
    simp only [Level.continues, Level.continuesPower, Bool.or_eq_true] at hw ⊢
    exact .inl hw
  rw [power, ← bind_assoc, run_bind_of_ok (primary_parses hne h hts (by omega) hstops),
    run_ifOperator_of_ne _ _ (hrest.ne (by decide))]
  rfl

/-! ### Subscripts, calls and lists -/

/-- Expressions with commas between them are read up to the closing bracket. -/
theorem items_separated {close : String} (hclose : close ∈ [")", "]"])
    {parts : List (List Spelling × Expr)} {inner : List Spelling}
    (hforms : ∀ part ∈ parts, Forms .conditional part.1 part.2)
    (hparts : ∀ part ∈ parts, Complete .conditional part.1 part.2)
    (hinner : Separated (parts.map Prod.fst) inner) :
    ∀ {n : Nat} {ts : List Token}, ts.map Token.spelling = inner → t.spelling = sign close →
      20 * ts.length < n → (items n close).run (ts ++ t :: rest) = .ok (parts.map Prod.snd, rest) := by
  have hbegins : Level.conditional.begins (sign close) = false := by
    revert close
    decide
  have hcontinues : Level.conditional.continues (sign close) = false := by
    revert close
    decide
  generalize hstretches : parts.map Prod.fst = stretches at hinner
  induction hinner generalizing parts with
  | nil =>
    intro n ts hts ht hn
    obtain rfl := List.map_eq_nil_iff.1 hstretches
    obtain rfl := List.map_eq_nil_iff.1 hts
    obtain ⟨n, rfl⟩ : ∃ k, n = k + 1 := ⟨n - 1, by omega⟩
    rw [List.nil_append, items, run_ifOperator_of_eq _ _ ht]
    rfl
  | last words =>
    intro n ts hts ht hn
    obtain ⟨part, rfl, rfl⟩ := List.map_eq_singleton_iff.1 hstretches
    rw [List.forall_mem_singleton] at hforms hparts
    obtain ⟨n, rfl⟩ : ∃ k, n = k + 1 := ⟨n - 1, by omega⟩
    have hcomma : ∀ t' ∈ (t :: rest).head?, t'.spelling ≠ sign "," := by
      refine head?_spelling_ne ht ?_
      rintro ⟨rfl⟩
      exact absurd hclose (by decide)
    have hlength : part.1.length = ts.length := by rw [← hts, List.length_map]
    rw [items, run_ifOperator_of_ne _ _ (ne_of_starts hforms.starts hts hbegins),
      run_bind_of_ok (hparts hts (by omega) (stops_cons ht hcontinues)),
      run_ifOperator_of_ne _ _ hcomma, run_bind_of_ok (run_requireOperator ht)]
    rfl
  | more words hmore ih =>
    intro n ts hts ht hn
    obtain ⟨part, parts, rfl, rfl, hrest⟩ := List.map_eq_cons_iff.1 hstretches
    rw [List.forall_mem_cons] at hforms hparts
    obtain ⟨ls, comma, rs, rfl, hls, hcomma, hrs⟩ := tokens_around hts
    rw [List.length_append, List.length_cons] at hn
    obtain ⟨n, rfl⟩ : ∃ k, n = k + 1 := ⟨n - 1, by omega⟩
    have hlength : part.1.length = ls.length := by rw [← hls, List.length_map]
    rw [List.append_assoc, List.cons_append, items,
      run_ifOperator_of_ne _ _ (ne_of_starts hforms.1.starts hls hbegins),
      run_bind_of_ok (hparts.1 hls (by omega) (stops_cons hcomma (by decide))),
      run_ifOperator_of_eq _ _ hcomma,
      run_bind_of_ok (ih hforms.2 hparts.2 hrest hrs ht (by omega))]
    rfl

theorem complete_index {position : List Spelling} {positionTree : Expr}
    (hleft : Complete .primary words tree)
    (hposition : Complete .conditional position positionTree) :
    Complete .primary (words ++ sign "[" :: (position ++ [sign "]"])) (.index tree positionTree) := by
  intro n ts rest hts hn hrest
  obtain ⟨ls, t, more, rfl, hls, ht, hmore⟩ := tokens_around hts
  obtain ⟨ps, t', rfl, hps, ht'⟩ := tokens_closed hmore
  simp only [List.length_append, List.length_cons, List.length_nil] at hn ⊢
  simp only [List.append_assoc, List.cons_append, List.nil_append]
  obtain ⟨m, hm, hrun⟩ := hleft (n := n) hls (by omega) (stops_cons ht (by decide))
  obtain ⟨m, rfl⟩ : ∃ k, m = k + 1 := ⟨m - 1, by omega⟩
  refine ⟨m, by omega, ?_⟩
  rw [hrun, trailers.eq_def]
  dsimp only
  rw [run_ifOperator_of_eq _ _ ht,
    run_bind_of_ok (hposition hps (by omega) (stops_cons ht' (by decide))),
    run_bind_of_ok (run_requireOperator ht')]

theorem complete_call {inner : List Spelling} {function : String}
    {parts : List (List Spelling × Expr)} (hleft : Complete .primary words (.name function))
    (hforms : ∀ part ∈ parts, Forms .conditional part.1 part.2)
    (hparts : ∀ part ∈ parts, Complete .conditional part.1 part.2)
    (hinner : Separated (parts.map Prod.fst) inner) :
    Complete .primary (words ++ sign "(" :: (inner ++ [sign ")"]))
      (.call function (parts.map Prod.snd)) := by
  intro n ts rest hts hn hrest
  obtain ⟨ls, t, more, rfl, hls, ht, hmore⟩ := tokens_around hts
  obtain ⟨ps, t', rfl, hps, ht'⟩ := tokens_closed hmore
  have hlength : inner.length = ps.length := by rw [← hps, List.length_map]
  simp only [List.length_append, List.length_cons, List.length_nil] at hn ⊢
  simp only [List.append_assoc, List.cons_append, List.nil_append]
  obtain ⟨m, hm, hrun⟩ := hleft (n := n) hls (by omega) (stops_cons ht (by decide))
  obtain ⟨m, rfl⟩ : ∃ k, m = k + 1 := ⟨m - 1, by omega⟩
  refine ⟨m, by omega, ?_⟩
  have hindex : ∀ u ∈ (t :: (ps ++ t' :: rest)).head?, u.spelling ≠ sign "[" :=
    head?_spelling_ne ht (by decide)
  have hopen : t.isOperator "(" = true := spelling_eq_iff.1 ht
  rw [hrun, trailers, run_ifOperator_of_ne _ _ hindex, run_bind_of_ok (run_peek_cons t _), if_pos hopen,
    run_bind_of_ok (run_advance_cons t _),
    run_bind_of_ok (items_separated (by decide) hforms hparts hinner hps ht' (by omega))]

theorem complete_primary (h : Complete .atom words tree) :
    Complete .primary words tree := by
  intro n ts rest hts hn hrest
  refine ⟨n, by omega, ?_⟩
  dsimp only
  rw [run_bind_of_ok (h hts (by omega) hrest)]

/-! ### Atoms -/

theorem complete_number {text : String} {value : Constant} (h : number? text = some value) :
    Complete .atom [(.number, text)] (.const value) := by
  intro n ts rest hts hn hrest
  obtain ⟨t, rfl, ht⟩ := List.map_eq_singleton_iff.1 hts
  rw [List.length_singleton] at hn
  obtain ⟨n, rfl⟩ : ∃ k, n = k + 1 := ⟨n - 1, by omega⟩
  rw [Token.spelling, Prod.mk.injEq] at ht
  rw [List.singleton_append, atom, run_bind_of_ok (run_peek_cons t rest),
    run_bind_of_ok (run_advance_cons t rest), ht.1]
  dsimp only
  rw [ht.2, h]
  rfl

theorem run_stringText {literal text : String} (ht : t.spelling = (.string, literal))
    (h : literalText? literal = some text) : (stringText t).run ts = .ok (text, ts) := by
  rw [Token.spelling, Prod.mk.injEq] at ht
  unfold literalText? at h
  unfold stringText
  rw [ht.2]
  dsimp only at h ⊢
  split at h
  · cases h
  · next hletters =>
    rw [if_neg hletters]
    cases hread : Literal.unquote literal with
    | error cause => rw [hread] at h; cases h
    | ok found =>
      rw [hread] at h
      cases h
      rfl

/-- String literals side by side are joined. -/
theorem run_moreStrings {literals texts : List String}
    (h : List.Forall₂ (fun literal text => literalText? literal = some text) literals texts)
    (hrest : Stops .atom rest) : ∀ {n : Nat} {ts : List Token} (before : String),
      ts.map Token.spelling = literals.map (fun literal => (.string, literal)) → ts.length ≤ n →
      (moreStrings n before).run (ts ++ rest) = .ok (before ++ String.join texts, rest) := by
  induction h with
  | nil =>
    intro n ts before hts _
    obtain rfl := List.map_eq_nil_iff.1 hts
    have hkind : (rest.headD endToken).kind ≠ .string := by
      cases rest with
      | nil => decide
      | cons t rest => simpa [Level.continues, Token.spelling] using hrest t rfl
    rw [String.join_nil, String.append_empty, List.nil_append]
    cases n with
    | zero => rfl
    | succ n =>
      rw [moreStrings, run_bind_of_ok (run_peek rest), if_neg hkind]
      rfl
  | @cons literal text literals texts hliteral _ ih =>
    intro n ts before hts hn
    rw [List.map_cons] at hts
    obtain ⟨t, ts, rfl, ht, hts⟩ := List.map_eq_cons_iff.1 hts
    obtain ⟨n, rfl⟩ : ∃ k, n = k + 1 := ⟨n - 1, by rw [List.length_cons] at hn; omega⟩
    have hkind : t.kind = .string := (Prod.ext_iff.1 ht).1
    rw [List.cons_append, moreStrings, run_bind_of_ok (run_peek_cons t _), if_pos hkind,
      run_bind_of_ok (run_advance_cons t _), run_bind_of_ok (run_stringText ht hliteral),
      ih _ hts (by simpa using hn), String.join_cons, String.append_assoc]

theorem complete_strings {literals texts : List String} (hne : literals ≠ [])
    (h : List.Forall₂ (fun literal text => literalText? literal = some text) literals texts) :
    Complete .atom (literals.map fun literal => (.string, literal))
      (.const (.str (String.join texts))) := by
  intro n ts rest hts hn hrest
  cases h with
  | nil => exact absurd rfl hne
  | @cons literal text literals texts hliteral h =>
    rw [List.map_cons] at hts
    obtain ⟨t, ts, rfl, ht, hts⟩ := List.map_eq_cons_iff.1 hts
    have hlength : literals.length = ts.length := by
      rw [← List.length_map (f := Token.spelling), hts, List.length_map]
    simp only [List.map_cons, List.length_cons, List.length_map] at hn
    obtain ⟨n, rfl⟩ : ∃ k, n = k + 1 := ⟨n - 1, by omega⟩
    have hkind : t.kind = .string := (Prod.ext_iff.1 ht).1
    rw [List.cons_append, atom, run_bind_of_ok (run_peek_cons t _),
      run_bind_of_ok (run_advance_cons t _), hkind]
    dsimp only
    rw [run_bind_of_ok (run_stringText ht hliteral),
      run_bind_of_ok (run_moreStrings h hrest text hts (by omega)), String.join_cons]
    rfl

/-- A word that stands for a value or a name is read as that. -/
theorem atom_word {text : String} (hts : ts.map Token.spelling = [word text]) (n : Nat) :
    (atom (n + 1)).run (ts ++ rest) =
      if text = "True" then .ok (.const (.bool true), rest)
      else if text = "False" then .ok (.const (.bool false), rest)
      else if text = "None" then .ok (.const .none, rest)
      else if isKeyword text then .error (.expectedExpression, ts.headD endToken)
      else .ok (.name text, rest) := by
  obtain ⟨t, rfl, ht⟩ := List.map_eq_singleton_iff.1 hts
  rw [Token.spelling, Prod.mk.injEq] at ht
  rw [List.singleton_append, atom, run_bind_of_ok (run_peek_cons t rest),
    run_bind_of_ok (run_advance_cons t rest), ht.1]
  dsimp only
  rw [ht.2]
  split_ifs <;> rfl

theorem complete_word {text : String} (hread : ∀ (n : Nat) (ts rest : List Token),
      ts.map Token.spelling = [word text] → (atom (n + 1)).run (ts ++ rest) = .ok (tree, rest)) :
    Complete .atom [word text] tree := by
  intro n ts rest hts hn hrest
  rw [List.length_singleton] at hn
  obtain ⟨n, rfl⟩ : ∃ k, n = k + 1 := ⟨n - 1, by omega⟩
  exact hread n ts rest hts

theorem complete_parentheses (h : Complete .conditional words tree) :
    Complete .atom (sign "(" :: (words ++ [sign ")"])) tree := by
  intro n ts rest hts hn hrest
  obtain ⟨t, ts, rfl, ht, hts⟩ := List.map_eq_cons_iff.1 hts
  obtain ⟨ls, t', rfl, hls, ht'⟩ := tokens_closed hts
  simp only [List.length_append, List.length_cons, List.length_nil] at hn
  obtain ⟨n, rfl⟩ : ∃ k, n = k + 1 := ⟨n - 1, by omega⟩
  rw [Token.spelling, Prod.mk.injEq] at ht
  simp only [List.append_assoc, List.cons_append, List.nil_append]
  rw [atom, run_bind_of_ok (run_peek_cons t _), run_bind_of_ok (run_advance_cons t _), ht.1]
  dsimp only
  rw [if_pos ht.2, run_bind_of_ok (h hls (by omega) (stops_cons ht' (by decide))),
    run_bind_of_ok (run_requireOperator ht')]
  rfl

theorem complete_list {inner : List Spelling} {parts : List (List Spelling × Expr)}
    (hforms : ∀ part ∈ parts, Forms .conditional part.1 part.2)
    (hparts : ∀ part ∈ parts, Complete .conditional part.1 part.2)
    (hinner : Separated (parts.map Prod.fst) inner) :
    Complete .atom (sign "[" :: (inner ++ [sign "]"])) (.list (parts.map Prod.snd)) := by
  intro n ts rest hts hn hrest
  obtain ⟨t, ts, rfl, ht, hts⟩ := List.map_eq_cons_iff.1 hts
  obtain ⟨ls, t', rfl, hls, ht'⟩ := tokens_closed hts
  have hlength : inner.length = ls.length := by rw [← hls, List.length_map]
  simp only [List.length_append, List.length_cons, List.length_nil] at hn
  obtain ⟨n, rfl⟩ : ∃ k, n = k + 1 := ⟨n - 1, by omega⟩
  rw [Token.spelling, Prod.mk.injEq] at ht
  simp only [List.append_assoc, List.cons_append, List.nil_append]
  rw [atom, run_bind_of_ok (run_peek_cons t _), run_bind_of_ok (run_advance_cons t _), ht.1]
  dsimp only
  rw [if_neg (by rw [ht.2]; decide), if_pos ht.2,
    run_bind_of_ok (items_separated (by decide) hforms hparts hinner hls ht' (by omega))]
  rfl

end Cases

/-- **The rules are complete.** -/
theorem complete {level : Level} (h : Forms level words tree) : Complete level words tree := by
  induction h with
  | ifElse hb hc _ ihb ihc iho => exact complete_ifElse hb.ne_nil hc.ne_nil ihb ihc iho
  | conditional h ih => exact complete_conditional h.ne_nil ih
  | or _ hr ihl ihr => exact complete_or hr.ne_nil ihl ihr
  | disjunction h ih => exact complete_disjunction h.ne_nil ih
  | and _ _ ihl ihr => exact complete_and ihl ihr
  | conjunction h ih => exact complete_conjunction h.ne_nil ih
  | not _ ih => exact complete_not ih
  | negation h ih => exact complete_negation h.starts ih
  | compare hw hne hlinks ihw ihlinks => exact complete_compare hw.ne_nil hne hlinks ihw ihlinks
  | comparison h ih => exact complete_comparison h.ne_nil ih
  | binary hop hstrength _ hr ihl ihr => exact complete_binary hop hstrength hr.ne_nil ihl ihr
  | looser _ ih => exact complete_looser ih
  | operand h ih => exact complete_operand h.ne_nil ih
  | signed op _ ih => exact complete_signed op ih
  | unary h ih => exact complete_unary h.starts ih
  | raised hb _ ihb ihr => exact complete_raised hb.ne_nil ihb ihr
  | power h ih => exact complete_power h.ne_nil ih
  | index _ _ ihw ihp => exact complete_index ihw ihp
  | call _ hparts hinner ihw ihparts => exact complete_call ihw hparts ihparts hinner
  | primary _ ih => exact complete_primary ih
  | number h => exact complete_number h
  | strings hne h => exact complete_strings hne h
  | true => exact complete_word fun _ _ _ hts => (atom_word hts _).trans (if_pos rfl)
  | false =>
    refine complete_word fun _ _ _ hts => ?_
    rw [atom_word hts, if_neg (by decide), if_pos rfl]
  | none =>
    refine complete_word fun _ _ _ hts => ?_
    rw [atom_word hts, if_neg (by decide), if_neg (by decide), if_pos rfl]
  | name hvalue hkeyword =>
    simp only [List.mem_cons, List.not_mem_nil, or_false, not_or] at hvalue
    refine complete_word fun _ _ _ hts => ?_
    rw [atom_word hts, if_neg hvalue.1, if_neg hvalue.2.1, if_neg hvalue.2.2, hkeyword]
    rfl
  | parentheses _ ih => exact complete_parentheses ih
  | list hparts hinner ihparts => exact complete_list hparts ihparts hinner

/-- **A sentence is read as its tree,** where nothing behind it goes on with it. -/
theorem expr_complete {n : Nat} (h : Sentence words tree) (hts : ts.map Token.spelling = words)
    (hn : 20 * words.length ≤ n + 10) (hrest : Stops .conditional rest) :
    (expr n).run (ts ++ rest) = .ok (tree, rest) :=
  complete h hts (by omega) hrest

end Quasiquote.Host.Parser
