import Quasiquote.Proofs.Host.Rule

/-!
# What the parser reads is an expression

A rule of the host parser that succeeds has read a phrase of the grammar, whatever stands behind it.

## Main Definitions

* `Host.Parser.Extends` — a rule that reads on behind some words to the end of a phrase
* `Host.Parser.Sound` — every rule that goes to some depth reads the phrases it is for

## Main Statements

* `Host.Parser.sound` — the rules are sound at every depth

## Design Notes

Rules that follow operands read on behind a left operand. What is claimed of them is about the words of
that operand together with their own. A rule for binary operators leaves no operator ahead that it could
have read; this is what makes its result a left operand of the next looser operator.
-/

namespace Quasiquote.Host.Parser

/-- **A rule that reads on.** Behind the words `before`, what it reads completes a phrase. -/
def Extends (level : Level) (before : List Spelling) (rule : Rule Expr) : Prop :=
  ∀ ⦃ts rest : List Token⦄ ⦃e : Expr⦄, rule.run ts = .ok (e, rest) →
    ∃ used, ts = used ++ rest ∧ Forms level (before ++ used.map Token.spelling) e

/-- A rule that reads a phrase. -/
abbrev Reads (level : Level) (rule : Rule Expr) : Prop := Extends level [] rule

/-- A rule that reads the comparisons of a chain. -/
def ReadsChain (rule : Rule (List (CompareOp × Expr))) : Prop :=
  ∀ ⦃ts rest : List Token⦄ ⦃chain : List (CompareOp × Expr)⦄, rule.run ts = .ok (chain, rest) →
    ∃ (used : List Token) (links : List Link), ts = used ++ rest ∧
      used.map Token.spelling = links.flatMap Link.spelled ∧ chain = links.map Link.pair ∧
      ∀ link ∈ links, Forms (.operand 0) link.words link.operand

/-- A rule that reads expressions with commas between them, and the bracket behind them. -/
def ReadsItems (close : String) (rule : Rule (List Expr)) : Prop :=
  ∀ ⦃ts rest : List Token⦄ ⦃es : List Expr⦄, rule.run ts = .ok (es, rest) →
    ∃ (used : List Token) (t : Token) (parts : List (List Spelling × Expr)),
      ts = used ++ t :: rest ∧ t.spelling = sign close ∧ es = parts.map Prod.snd ∧
      Separated (parts.map Prod.fst) (used.map Token.spelling) ∧
      ∀ part ∈ parts, Forms .conditional part.1 part.2

/-- No left-associative operator ahead binds tighter than `least`. -/
def Stopped (least : Nat) (ts : List Token) : Prop :=
  ∀ op, binaryOf? (ts.headD endToken) = some op → op.strength ≤ least

/-- **The rules that go to depth `n` read what they are for.** -/
structure Sound (n : Nat) : Prop where
  expr : Reads .conditional (expr n)
  orTest : Reads .disjunction (orTest n)
  orTail {l : List Spelling} {left : Expr} : Forms .disjunction l left →
    Extends .disjunction l (orTail n left)
  andTest : Reads .conjunction (andTest n)
  andTail {l : List Spelling} {left : Expr} : Forms .conjunction l left →
    Extends .conjunction l (andTail n left)
  notTest : Reads .negation (notTest n)
  comparison : Reads .comparison (comparison n)
  compareTail : ReadsChain (compareTail n)
  binary {least : Nat} : least ≤ 6 → Reads (.operand least) (binary n least)
  binary_stopped {least : Nat} {ts rest : List Token} {e : Expr} :
    (Parser.binary n least).run ts = .ok (e, rest) → Stopped least rest
  /-- The operators that follow bind no tighter than those of the left operand. -/
  binaryTail {least strength : Nat} {l : List Spelling} {left : Expr} {ts rest : List Token}
    {e : Expr} : least ≤ strength → Forms (.operand strength) l left → Stopped (strength + 1) ts →
    (Parser.binaryTail n least left).run ts = .ok (e, rest) →
    ∃ used, ts = used ++ rest ∧ Forms (.operand least) (l ++ used.map Token.spelling) e
  binaryTail_stopped {least : Nat} {left : Expr} {ts rest : List Token} {e : Expr} :
    (Parser.binaryTail n least left).run ts = .ok (e, rest) → Stopped least rest
  unary : Reads .unary (unary n)
  power : Reads .power (power n)
  trailers {l : List Spelling} {target : Expr} : Forms .primary l target →
    Extends .primary l (trailers n target)
  items (close : String) : ReadsItems close (items n close)
  atom : Reads .atom (atom n)

section

variable {n : Nat} {ts rest : List Token} {e : Expr}

theorem sound_zero : Sound 0 where
  expr _ _ _ h := absurd h stopHere_ne_ok
  orTest _ _ _ h := absurd h stopHere_ne_ok
  orTail _ _ _ _ h := absurd h stopHere_ne_ok
  andTest _ _ _ h := absurd h stopHere_ne_ok
  andTail _ _ _ _ h := absurd h stopHere_ne_ok
  notTest _ _ _ h := absurd h stopHere_ne_ok
  comparison _ _ _ h := absurd h stopHere_ne_ok
  compareTail _ _ _ h := absurd h stopHere_ne_ok
  binary _ _ _ _ h := absurd h stopHere_ne_ok
  binary_stopped h := absurd h stopHere_ne_ok
  binaryTail _ _ _ h := absurd h stopHere_ne_ok
  binaryTail_stopped h := absurd h stopHere_ne_ok
  unary _ _ _ h := absurd h stopHere_ne_ok
  power _ _ _ h := absurd h stopHere_ne_ok
  trailers _ _ _ _ h := absurd h stopHere_ne_ok
  items _ _ _ _ h := absurd h stopHere_ne_ok
  atom _ _ _ h := absurd h stopHere_ne_ok

/-! ### Words between phrases -/

theorem expr_succ (hs : Sound n) : Reads .conditional (expr (n + 1)) := by
  intro ts rest e h
  rw [expr, run_bind_eq_ok_iff] at h
  obtain ⟨body, mid, hbody, h⟩ := h
  obtain ⟨b, rfl, hb⟩ := hs.orTest hbody
  replace h := run_ifWord_eq_ok h
  rcases h with ⟨t, mid, rfl, ht, h⟩ | h
  · rw [run_bind_eq_ok_iff] at h
    obtain ⟨condition, mid', hcondition, h⟩ := h
    obtain ⟨c, rfl, hc⟩ := hs.orTest hcondition
    replace h := run_ifWord_eq_ok h
    rcases h with ⟨t', mid, rfl, ht', h⟩ | h
    · rw [run_bind_eq_ok_iff] at h
      obtain ⟨orElse, mid', horElse, h⟩ := h
      obtain ⟨o, rfl, ho⟩ := hs.expr horElse
      obtain ⟨rfl, rfl⟩ := run_pure_eq_ok h
      refine ⟨b ++ t :: (c ++ t' :: o), by simp, ?_⟩
      simpa [ht, ht'] using Forms.ifElse hb hc ho
    · exact absurd h stopHere_ne_ok
  · obtain ⟨rfl, rfl⟩ := run_pure_eq_ok h
    exact ⟨b, rfl, hb.conditional⟩

theorem orTest_succ (hs : Sound n) : Reads .disjunction (orTest (n + 1)) := by
  intro ts rest e h
  rw [orTest, run_bind_eq_ok_iff] at h
  obtain ⟨left, mid, hleft, h⟩ := h
  obtain ⟨l, rfl, hl⟩ := hs.andTest hleft
  obtain ⟨r, rfl, hr⟩ := hs.orTail hl.disjunction h
  exact ⟨l ++ r, by simp, by simpa using hr⟩

theorem orTail_succ (hs : Sound n) {l : List Spelling} {left : Expr}
    (hl : Forms .disjunction l left) : Extends .disjunction l (orTail (n + 1) left) := by
  intro ts rest e h
  rw [orTail] at h
  replace h := run_ifWord_eq_ok h
  rcases h with ⟨t, mid, rfl, ht, h⟩ | h
  · rw [run_bind_eq_ok_iff] at h
    obtain ⟨right, mid', hright, h⟩ := h
    obtain ⟨r, rfl, hr⟩ := hs.andTest hright
    obtain ⟨m, rfl, hm⟩ := hs.orTail (hl.or hr) h
    exact ⟨t :: (r ++ m), by simp, by simpa [ht] using hm⟩
  · obtain ⟨rfl, rfl⟩ := run_pure_eq_ok h
    exact ⟨[], rfl, by simpa using hl⟩

theorem andTest_succ (hs : Sound n) : Reads .conjunction (andTest (n + 1)) := by
  intro ts rest e h
  rw [andTest, run_bind_eq_ok_iff] at h
  obtain ⟨left, mid, hleft, h⟩ := h
  obtain ⟨l, rfl, hl⟩ := hs.notTest hleft
  obtain ⟨r, rfl, hr⟩ := hs.andTail hl.conjunction h
  exact ⟨l ++ r, by simp, by simpa using hr⟩

theorem andTail_succ (hs : Sound n) {l : List Spelling} {left : Expr}
    (hl : Forms .conjunction l left) : Extends .conjunction l (andTail (n + 1) left) := by
  intro ts rest e h
  rw [andTail] at h
  replace h := run_ifWord_eq_ok h
  rcases h with ⟨t, mid, rfl, ht, h⟩ | h
  · rw [run_bind_eq_ok_iff] at h
    obtain ⟨right, mid', hright, h⟩ := h
    obtain ⟨r, rfl, hr⟩ := hs.notTest hright
    obtain ⟨m, rfl, hm⟩ := hs.andTail (hl.and hr) h
    exact ⟨t :: (r ++ m), by simp, by simpa [ht] using hm⟩
  · obtain ⟨rfl, rfl⟩ := run_pure_eq_ok h
    exact ⟨[], rfl, by simpa using hl⟩

theorem notTest_succ (hs : Sound n) : Reads .negation (notTest (n + 1)) := by
  intro ts rest e h
  rw [notTest] at h
  replace h := run_ifWord_eq_ok h
  rcases h with ⟨t, mid, rfl, ht, h⟩ | h
  · rw [run_bind_eq_ok_iff] at h
    obtain ⟨operand, mid', hoperand, h⟩ := h
    obtain ⟨w, rfl, hw⟩ := hs.notTest hoperand
    obtain ⟨rfl, rfl⟩ := run_pure_eq_ok h
    exact ⟨t :: w, rfl, by simpa [ht] using hw.not⟩
  · obtain ⟨w, rfl, hw⟩ := hs.comparison h
    exact ⟨w, rfl, hw.negation⟩

/-! ### Comparisons -/

theorem comparison_succ (hs : Sound n) : Reads .comparison (comparison (n + 1)) := by
  intro ts rest e h
  rw [comparison, run_bind_eq_ok_iff] at h
  obtain ⟨first, mid, hfirst, h⟩ := h
  obtain ⟨w, rfl, hw⟩ := hs.binary (Nat.zero_le 6) hfirst
  rw [run_bind_eq_ok_iff] at h
  obtain ⟨chain, mid', hchain, h⟩ := h
  obtain ⟨used, links, rfl, hused, rfl, hlinks⟩ := hs.compareTail hchain
  cases links with
  | nil =>
    obtain ⟨rfl, rfl⟩ := run_pure_eq_ok h
    have hnone : used = [] := by simpa using hused
    subst hnone
    exact ⟨w, rfl, hw.comparison⟩
  | cons link links =>
    obtain ⟨rfl, rfl⟩ := run_pure_eq_ok h
    refine ⟨w ++ used, by simp, ?_⟩
    rw [List.nil_append, List.map_append, hused]
    exact hw.compare (List.cons_ne_nil _ _) hlinks

theorem compareTail_succ (hs : Sound n) : ReadsChain (compareTail (n + 1)) := by
  intro ts rest chain h
  rw [compareTail, run_bind_eq_ok_iff] at h
  obtain ⟨found, mid, hfound, h⟩ := h
  rcases compareOp?_eq_ok hfound with ⟨op, o, rfl, rfl, ho⟩ | ⟨rfl, rfl⟩
  · dsimp only at h
    rw [run_bind_eq_ok_iff] at h
    obtain ⟨right, mid', hright, h⟩ := h
    obtain ⟨w, rfl, hw⟩ := hs.binary (Nat.zero_le 6) hright
    rw [run_bind_eq_ok_iff] at h
    obtain ⟨later, mid, hlater, h⟩ := h
    obtain ⟨used, links, rfl, hused, rfl, hlinks⟩ := hs.compareTail hlater
    obtain ⟨rfl, rfl⟩ := run_pure_eq_ok h
    refine ⟨o ++ (w ++ used), ⟨op, w.map Token.spelling, right⟩ :: links, by simp, ?_, rfl, ?_⟩
    · simp [ho, hused, Link.spelled]
    · exact List.forall_mem_cons.2 ⟨hw, hlinks⟩
  · obtain ⟨rfl, rfl⟩ := run_pure_eq_ok h
    exact ⟨[], [], rfl, rfl, rfl, nofun⟩

/-! ### Binary operators -/

theorem stopped_of_le {least : Nat} (h : 6 ≤ least) (ts : List Token) : Stopped least ts :=
  fun _ hop => Nat.le_trans (strength_bounds (binaryOf?_eq_some hop).1).2 h

theorem binary_succ (hs : Sound n) {least : Nat} (hleast : least ≤ 6) :
    Reads (.operand least) (binary (n + 1) least) := by
  intro ts rest e h
  rw [binary, run_bind_eq_ok_iff] at h
  obtain ⟨left, mid, hleft, h⟩ := h
  obtain ⟨l, rfl, hl⟩ := hs.unary hleft
  obtain ⟨r, rfl, hr⟩ := hs.binaryTail hleast hl.operand (stopped_of_le (by omega) mid) h
  exact ⟨l ++ r, by simp, by simpa using hr⟩

theorem binary_succ_stopped (hs : Sound n) {least : Nat}
    (h : (binary (n + 1) least).run ts = .ok (e, rest)) : Stopped least rest := by
  rw [binary, run_bind_eq_ok_iff] at h
  obtain ⟨left, mid, -, h⟩ := h
  exact hs.binaryTail_stopped h

theorem binaryTail_succ (hs : Sound n) {least strength : Nat} {l : List Spelling} {left : Expr}
    (hleast : least ≤ strength) (hl : Forms (.operand strength) l left)
    (hahead : Stopped (strength + 1) ts) (h : (binaryTail (n + 1) least left).run ts = .ok (e, rest)) :
    ∃ used, ts = used ++ rest ∧ Forms (.operand least) (l ++ used.map Token.spelling) e := by
  rw [binaryTail, run_bind_eq_ok_iff] at h
  obtain ⟨found, mid, hfound, h⟩ := h
  rcases binaryOp?_eq_ok hfound with ⟨op, t, rfl, rfl, ht, hop⟩ | ⟨rfl, rfl, -⟩
  · dsimp only at h
    obtain ⟨hassociative, hspelling⟩ := binaryOf?_eq_some ht
    rw [run_bind_eq_ok_iff] at h
    obtain ⟨right, mid', hright, h⟩ := h
    obtain ⟨s, hs'⟩ : ∃ s, op.strength = s + 1 := ⟨op.strength - 1, by omega⟩
    have hbound : op.strength ≤ strength + 1 := hahead op ht
    have hstopped := hs.binary_stopped hright
    obtain ⟨r, rfl, hr⟩ := hs.binary (strength_bounds hassociative).2 hright
    rw [List.nil_append, hs'] at hr
    have hboth := (hl.operand_mono (show s ≤ strength by omega)).binary hassociative hs' hr
    obtain ⟨m, rfl, hm⟩ := hs.binaryTail (by omega) hboth (hs' ▸ hstopped) h
    exact ⟨t :: (r ++ m), by simp, by simpa [hspelling] using hm⟩
  · obtain ⟨rfl, rfl⟩ := run_pure_eq_ok h
    exact ⟨[], rfl, by simpa using hl.operand_mono hleast⟩

theorem binaryTail_succ_stopped (hs : Sound n) {least : Nat} {left : Expr}
    (h : (binaryTail (n + 1) least left).run ts = .ok (e, rest)) : Stopped least rest := by
  rw [binaryTail, run_bind_eq_ok_iff] at h
  obtain ⟨found, mid, hfound, h⟩ := h
  rcases binaryOp?_eq_ok hfound with ⟨op, t, rfl, rfl, ht, hop⟩ | ⟨rfl, rfl, hnone⟩
  · dsimp only at h
    rw [run_bind_eq_ok_iff] at h
    obtain ⟨right, mid', -, h⟩ := h
    exact hs.binaryTail_stopped h
  · obtain ⟨rfl, rfl⟩ := run_pure_eq_ok h
    exact hnone

theorem unary_succ (hs : Sound n) : Reads .unary (unary (n + 1)) := by
  intro ts rest e h
  rw [unary, run_bind_eq_ok_iff] at h
  obtain ⟨found, mid, hfound, h⟩ := h
  rcases unaryOp?_eq_ok hfound with ⟨op, t, rfl, rfl, ht⟩ | ⟨rfl, rfl⟩
  · dsimp only at h
    rw [run_bind_eq_ok_iff] at h
    obtain ⟨operand, mid', hoperand, h⟩ := h
    obtain ⟨w, rfl, hw⟩ := hs.unary hoperand
    obtain ⟨rfl, rfl⟩ := run_pure_eq_ok h
    exact ⟨t :: w, rfl, by simpa [ht] using hw.signed op⟩
  · obtain ⟨w, rfl, hw⟩ := hs.power h
    exact ⟨w, rfl, hw.unary⟩

theorem power_succ (hs : Sound n) : Reads .power (power (n + 1)) := by
  intro ts rest e h
  rw [power, run_bind_eq_ok_iff] at h
  obtain ⟨first, mid, hfirst, h⟩ := h
  obtain ⟨f, rfl, hf⟩ := hs.atom hfirst
  rw [run_bind_eq_ok_iff] at h
  obtain ⟨base, mid', hbase, h⟩ := h
  obtain ⟨b, rfl, hb⟩ := hs.trailers hf.primary hbase
  replace h := run_ifOperator_eq_ok h
  rcases h with ⟨t, mid, rfl, ht, h⟩ | h
  · rw [run_bind_eq_ok_iff] at h
    obtain ⟨exponent, mid', hexponent, h⟩ := h
    obtain ⟨r, rfl, hr⟩ := hs.unary hexponent
    obtain ⟨rfl, rfl⟩ := run_pure_eq_ok h
    refine ⟨f ++ (b ++ t :: r), by simp, ?_⟩
    simpa [ht] using hb.raised hr
  · obtain ⟨rfl, rfl⟩ := run_pure_eq_ok h
    exact ⟨f ++ b, by simp, by simpa using hb.power⟩

/-! ### Brackets -/

theorem trailers_succ (hs : Sound n) {l : List Spelling} {target : Expr}
    (hl : Forms .primary l target) : Extends .primary l (trailers (n + 1) target) := by
  intro ts rest e h
  rw [trailers.eq_def] at h
  dsimp only at h
  replace h := run_ifOperator_eq_ok h
  rcases h with ⟨t, mid, rfl, ht, h⟩ | h
  · rw [run_bind_eq_ok_iff] at h
    obtain ⟨position, mid', hposition, h⟩ := h
    obtain ⟨p, rfl, hp⟩ := hs.expr hposition
    rw [run_bind_eq_ok_iff] at h
    obtain ⟨u, mid, hclose, h⟩ := h
    obtain ⟨t', rfl, ht'⟩ := requireOperator_eq_ok hclose
    obtain ⟨m, rfl, hm⟩ := hs.trailers (hl.index hp) h
    refine ⟨t :: (p ++ t' :: m), by simp, ?_⟩
    simpa [ht, ht'] using hm
  rw [run_bind_of_ok (run_peek ts)] at h
  split at h
  · next hopen =>
    obtain ⟨t, mid, rfl, ht⟩ := headD_eq (by decide) hopen
    split at h
    · next function =>
      rw [run_bind_of_ok (run_advance _), run_bind_eq_ok_iff] at h
      obtain ⟨arguments, mid', hitems, h⟩ := h
      obtain ⟨used, t', parts, hsplit, ht', rfl, hseparated, hparts⟩ := hs.items ")" hitems
      rw [List.tail_cons] at hsplit
      obtain ⟨m, rfl, hm⟩ := hs.trailers (hl.call hparts hseparated) h
      refine ⟨t :: (used ++ t' :: m), by simp [hsplit], ?_⟩
      simpa [ht, ht'] using hm
    · exact absurd h stopHere_ne_ok
  · obtain ⟨rfl, rfl⟩ := run_pure_eq_ok h
    exact ⟨[], rfl, by simpa using hl⟩

theorem items_succ (hs : Sound n) (close : String) : ReadsItems close (items (n + 1) close) := by
  intro ts rest es h
  rw [items] at h
  replace h := run_ifOperator_eq_ok h
  rcases h with ⟨t, mid, rfl, ht, h⟩ | h
  · obtain ⟨rfl, rfl⟩ := run_pure_eq_ok h
    exact ⟨[], t, [], rfl, ht, rfl, .nil, nofun⟩
  rw [run_bind_eq_ok_iff] at h
  obtain ⟨first, mid, hfirst, h⟩ := h
  obtain ⟨w, rfl, hw⟩ := hs.expr hfirst
  rw [List.nil_append] at hw
  replace h := run_ifOperator_eq_ok h
  rcases h with ⟨t, mid, rfl, ht, h⟩ | h
  · rw [run_bind_eq_ok_iff] at h
    obtain ⟨later, mid', hlater, h⟩ := h
    obtain ⟨used, t', parts, rfl, ht', rfl, hseparated, hparts⟩ := hs.items close hlater
    obtain ⟨rfl, rfl⟩ := run_pure_eq_ok h
    refine ⟨w ++ t :: used, t', (w.map Token.spelling, first) :: parts, by simp, ht', rfl, ?_,
      List.forall_mem_cons.2 ⟨hw, hparts⟩⟩
    simpa [ht] using hseparated.more (w.map Token.spelling)
  · rw [run_bind_eq_ok_iff] at h
    obtain ⟨u, mid', hclose, h⟩ := h
    obtain ⟨t, rfl, ht⟩ := requireOperator_eq_ok hclose
    obtain ⟨rfl, rfl⟩ := run_pure_eq_ok h
    exact ⟨w, t, [(w.map Token.spelling, first)], rfl, ht, rfl, .last _, by simpa using hw⟩

/-! ### Atoms -/

theorem stringText_eq_ok {t : Token} {text : String} (h : (stringText t).run ts = .ok (text, rest)) :
    literalText? t.text = some text ∧ rest = ts := by
  rw [stringText] at h
  rw [literalText?]
  split at h
  · exact absurd h stop_ne_ok
  · next hletters =>
    rw [if_neg hletters]
    split at h
    · next hunquote =>
      obtain ⟨rfl, rfl⟩ := run_pure_eq_ok h
      exact ⟨by rw [hunquote]; rfl, rfl⟩
    · exact absurd h stop_ne_ok

/-- String literals that are read stand side by side. -/
theorem moreStrings_eq_ok {text whole : String}
    (h : (moreStrings n text).run ts = .ok (whole, rest)) :
    ∃ (used : List Token) (literals texts : List String), ts = used ++ rest ∧
      used.map Token.spelling = literals.map (fun literal => (Token.Kind.string, literal)) ∧
      List.Forall₂ (fun literal text => literalText? literal = some text) literals texts ∧
      whole = text ++ String.join texts := by
  induction n generalizing ts text with
  | zero =>
    obtain ⟨rfl, rfl⟩ := run_pure_eq_ok h
    exact ⟨[], [], [], rfl, rfl, .nil, by simp⟩
  | succ n ih =>
    rw [moreStrings, run_bind_of_ok (run_peek ts)] at h
    split at h
    · next hstring =>
      cases ts with
      | nil => cases hstring
      | cons t ts =>
        rw [run_bind_of_ok (run_advance _), run_bind_eq_ok_iff] at h
        obtain ⟨piece, mid, hrun, h⟩ := h
        obtain ⟨hpiece, rfl⟩ := stringText_eq_ok hrun
        obtain ⟨used, literals, texts, hsplit, hused, htexts, rfl⟩ := ih h
        refine ⟨t :: used, t.text :: literals, piece :: texts, by rw [hsplit]; rfl, ?_,
          .cons hpiece htexts, by rw [String.join_cons, String.append_assoc]⟩
        rw [List.map_cons, hused, List.map_cons]
        exact congrArg (· :: _) (Prod.ext hstring rfl)
    · obtain ⟨rfl, rfl⟩ := run_pure_eq_ok h
      exact ⟨[], [], [], rfl, rfl, .nil, by simp⟩

/-- String literals side by side are an atom. -/
theorem atom_of_string {t : Token} {e : Expr} (hkind : t.kind = .string)
    (h : (atom (n + 1)).run (t :: ts) = .ok (e, rest)) :
    ∃ used, t :: ts = used ++ rest ∧ Forms .atom (used.map Token.spelling) e := by
  rw [atom, run_bind_of_ok (run_peek_cons t ts), run_bind_of_ok (run_advance_cons t ts), hkind] at h
  dsimp only at h
  rw [run_bind_eq_ok_iff] at h
  obtain ⟨first, mid, hrun, h⟩ := h
  obtain ⟨hfirst, rfl⟩ := stringText_eq_ok hrun
  rw [run_bind_eq_ok_iff] at h
  obtain ⟨whole, mid', hmore, h⟩ := h
  obtain ⟨used, literals, texts, rfl, hused, htexts, rfl⟩ := moreStrings_eq_ok hmore
  obtain ⟨rfl, rfl⟩ := run_pure_eq_ok h
  refine ⟨t :: used, rfl, ?_⟩
  have hstrings := Forms.strings (List.cons_ne_nil t.text literals) (.cons hfirst htexts)
  rw [String.join_cons] at hstrings
  simpa [Token.spelling, hkind, hused] using hstrings

/-- A word is one of the constants, or a name where it is no keyword. -/
theorem atom_of_name {t : Token} {e : Expr} (hkind : t.kind = .name)
    (h : (atom (n + 1)).run (t :: ts) = .ok (e, rest)) :
    ∃ used, t :: ts = used ++ rest ∧ Forms .atom (used.map Token.spelling) e := by
  have hword {text : String} (htext : t.text = text) : t.spelling = word text := Prod.ext hkind htext
  rw [atom, run_bind_of_ok (run_peek_cons t ts), run_bind_of_ok (run_advance_cons t ts), hkind] at h
  dsimp only at h
  by_cases htrue : t.text = "True"
  · rw [if_pos htrue] at h
    obtain ⟨rfl, rfl⟩ := run_pure_eq_ok h
    exact ⟨[t], rfl, by simpa [hword htrue] using Forms.true⟩
  by_cases hfalse : t.text = "False"
  · rw [if_neg htrue, if_pos hfalse] at h
    obtain ⟨rfl, rfl⟩ := run_pure_eq_ok h
    exact ⟨[t], rfl, by simpa [hword hfalse] using Forms.false⟩
  by_cases hnone : t.text = "None"
  · rw [if_neg htrue, if_neg hfalse, if_pos hnone] at h
    obtain ⟨rfl, rfl⟩ := run_pure_eq_ok h
    exact ⟨[t], rfl, by simpa [hword hnone] using Forms.none⟩
  rw [if_neg htrue, if_neg hfalse, if_neg hnone] at h
  by_cases hkeyword : isKeyword t.text = true
  · rw [if_pos hkeyword] at h
    exact absurd h stop_ne_ok
  · rw [if_neg hkeyword] at h
    obtain ⟨rfl, rfl⟩ := run_pure_eq_ok h
    have hname : Forms .atom [word t.text] (.name t.text) :=
      .name (by simp [htrue, hfalse, hnone]) (Bool.eq_false_iff.2 hkeyword)
    exact ⟨[t], rfl, by simpa [hword rfl] using hname⟩

/-- An opening bracket begins an expression in parentheses or a list. -/
theorem atom_of_operator {t : Token} {e : Expr} (hs : Sound n) (hkind : t.kind = .operator)
    (h : (atom (n + 1)).run (t :: ts) = .ok (e, rest)) :
    ∃ used, t :: ts = used ++ rest ∧ Forms .atom (used.map Token.spelling) e := by
  have hsign {text : String} (htext : t.text = text) : t.spelling = sign text := Prod.ext hkind htext
  rw [atom, run_bind_of_ok (run_peek_cons t ts), run_bind_of_ok (run_advance_cons t ts), hkind] at h
  dsimp only at h
  by_cases hround : t.text = "("
  · rw [if_pos hround, run_bind_eq_ok_iff] at h
    obtain ⟨inner, mid, hinner, h⟩ := h
    obtain ⟨w, rfl, hw⟩ := hs.expr hinner
    rw [run_bind_eq_ok_iff] at h
    obtain ⟨u, mid', hclose, h⟩ := h
    obtain ⟨t', rfl, ht'⟩ := requireOperator_eq_ok hclose
    obtain ⟨rfl, rfl⟩ := run_pure_eq_ok h
    refine ⟨t :: (w ++ [t']), by simp, ?_⟩
    simpa [hsign hround, ht'] using hw.parentheses
  by_cases hsquare : t.text = "["
  · rw [if_neg hround, if_pos hsquare, run_bind_eq_ok_iff] at h
    obtain ⟨es, mid, hitems, h⟩ := h
    obtain ⟨w, t', parts, rfl, ht', rfl, hseparated, hparts⟩ := hs.items "]" hitems
    obtain ⟨rfl, rfl⟩ := run_pure_eq_ok h
    refine ⟨t :: (w ++ [t']), by simp, ?_⟩
    simpa [hsign hsquare, ht'] using Forms.list hparts hseparated
  · rw [if_neg hround, if_neg hsquare] at h
    exact absurd h stop_ne_ok

theorem atom_succ (hs : Sound n) : Reads .atom (atom (n + 1)) := by
  intro ts rest e h
  cases ts with
  | nil => cases h
  | cons t ts =>
    have hatom := h
    rw [atom, run_bind_of_ok (run_peek_cons t ts), run_bind_of_ok (run_advance_cons t ts)] at h
    split at h
    · next hkind =>
      split at h
      · next value hvalue =>
        obtain ⟨rfl, rfl⟩ := run_pure_eq_ok h
        exact ⟨[t], rfl, by simpa [Token.spelling, hkind] using Forms.number hvalue⟩
      · exact absurd h stop_ne_ok
    · next hkind => exact atom_of_string hkind hatom
    · next hkind => exact atom_of_name hkind hatom
    · next hkind => exact atom_of_operator hs hkind hatom
    · exact absurd h stop_ne_ok

/-- **What the parser reads is an expression.** -/
theorem sound (n : Nat) : Sound n := by
  induction n with
  | zero => exact sound_zero
  | succ n ih =>
    exact {
      expr := expr_succ ih
      orTest := orTest_succ ih
      orTail := orTail_succ ih
      andTest := andTest_succ ih
      andTail := andTail_succ ih
      notTest := notTest_succ ih
      comparison := comparison_succ ih
      compareTail := compareTail_succ ih
      binary := binary_succ ih
      binary_stopped := binary_succ_stopped ih
      binaryTail := binaryTail_succ ih
      binaryTail_stopped := binaryTail_succ_stopped ih
      unary := unary_succ ih
      power := power_succ ih
      trailers := trailers_succ ih
      items := items_succ ih
      atom := atom_succ ih }

end

end Quasiquote.Host.Parser
