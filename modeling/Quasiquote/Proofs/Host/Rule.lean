import Quasiquote.Proofs.Basic
import Quasiquote.Proofs.Host.Grammar

/-!
# Running a rule of the parser

What the steps do that the rules of the host parser are made of: looking at the next token, passing over
it, stopping.

## Main Statements

* `Host.Parser.run_bind_eq_ok_iff` — a rule in two steps succeeds if both steps do
* `Host.Parser.run_ifText_eq_ok`, `Host.Parser.run_ifText_of_eq`, `Host.Parser.run_ifText_of_ne` — a
  rule that goes two ways, on whether a word is there
* `Host.Parser.compareOp?_eq_ok`, `Host.Parser.binaryOp?_eq_ok`, `Host.Parser.unaryOp?_eq_ok` — the
  operators that are found
-/

namespace Quasiquote.Host.Parser

variable {α β : Type} {ts rest : List Token}

/-! ### Steps -/

theorem run_bind_eq_ok_iff {first : Rule α} {next : α → Rule β} {b : β} :
    (first >>= next).run ts = .ok (b, rest) ↔
      ∃ a mid, first.run ts = .ok (a, mid) ∧ (next a).run mid = .ok (b, rest) := by
  rw [StateT.run_bind, bind_eq_ok_iff, Prod.exists]

theorem run_bind_of_ok {first : Rule α} {a : α} {mid : List Token}
    (h : first.run ts = .ok (a, mid)) (next : α → Rule β) :
    (first >>= next).run ts = (next a).run mid := by
  rw [StateT.run_bind, h]
  rfl

theorem run_pure_eq_ok {a b : α} (h : (pure a : Rule α).run ts = .ok (b, rest)) :
    a = b ∧ ts = rest := by
  rw [StateT.run_pure] at h
  cases h
  exact ⟨rfl, rfl⟩

@[simp] theorem run_peek (ts : List Token) : peek.run ts = .ok (ts.headD endToken, ts) := rfl

theorem run_peek_cons (t : Token) (ts : List Token) : peek.run (t :: ts) = .ok (t, t :: ts) := rfl

@[simp] theorem run_peekSecond (ts : List Token) :
    peekSecond.run ts = .ok (ts.tail.headD endToken, ts) := rfl

@[simp] theorem run_advance (ts : List Token) : advance.run ts = .ok ((), ts.tail) := rfl

theorem run_advance_cons (t : Token) (ts : List Token) : advance.run (t :: ts) = .ok ((), ts) := rfl

theorem stop_ne_ok {fault : GrammarFault} {token : Token} {a : α} :
    (stop fault token).run ts ≠ .ok (a, rest) := nofun

theorem stopHere_ne_ok {fault : GrammarFault} {a : α} :
    (stopHere fault).run ts ≠ .ok (a, rest) := nofun

theorem run_accept (p : Token → Bool) (ts : List Token) :
    (accept p).run ts =
      if p (ts.headD endToken) then .ok (true, ts.tail) else .ok (false, ts) := by
  rw [accept, run_bind_of_ok (run_peek ts)]
  split <;> rfl

/-! ### Words -/

theorem spelling_eq_iff {t : Token} {kind : Token.Kind} {text : String} :
    t.spelling = (kind, text) ↔ t.isText kind text = true := by
  rw [Token.isText, Bool.and_eq_true, beq_iff_eq, beq_iff_eq, Token.spelling, Prod.mk.injEq]

theorem isText_of_spelling {t : Token} {kind kind' : Token.Kind} {text text' : String}
    (ht : t.spelling = (kind, text)) :
    t.isText kind' text' = (kind == kind' && text == text') := by
  rw [Token.spelling, Prod.mk.injEq] at ht
  rw [Token.isText, ht.1, ht.2]

/-- The next token, if it is spelled so. There is no end marker among the words. -/
theorem headD_eq {kind : Token.Kind} {text : String} (hkind : kind ≠ .endMarker)
    (h : (ts.headD endToken).isText kind text = true) :
    ∃ t rest, ts = t :: rest ∧ t.spelling = (kind, text) := by
  cases ts with
  | nil =>
    rw [Token.isText, Bool.and_eq_true, beq_iff_eq] at h
    exact absurd h.1.symm hkind
  | cons t rest => exact ⟨t, rest, rfl, spelling_eq_iff.2 h⟩

/-- The next token is not a word from which it differs. -/
theorem isText_headD_eq_false {kind : Token.Kind} {text : String} (hkind : kind ≠ .endMarker)
    (h : ∀ t ∈ ts.head?, t.spelling ≠ (kind, text)) :
    (ts.headD endToken).isText kind text = false := by
  rw [Bool.eq_false_iff]
  intro hword
  obtain ⟨t, rest, rfl, ht⟩ := headD_eq hkind hword
  exact h t rfl ht

/-- A token that is spelled one way is not spelled another way. -/
theorem head?_spelling_ne {t : Token} {w w' : Spelling} (ht : t.spelling = w) (h : w ≠ w') :
    ∀ t' ∈ (t :: rest).head?, t'.spelling ≠ w' := by
  rintro t' ht' heq
  obtain rfl : t = t' := by simpa using ht'
  exact h (ht.symm.trans heq)

/-- **A rule that goes one way behind a word and the other way without it.** -/
theorem run_ifText_eq_ok {kind : Token.Kind} {text : String} (hkind : kind ≠ .endMarker)
    {yes no : Rule α} {a : α}
    (h : (accept (·.isText kind text) >>= fun found => if found = true then yes else no).run ts =
      .ok (a, rest)) :
    (∃ t mid, ts = t :: mid ∧ t.spelling = (kind, text) ∧ yes.run mid = .ok (a, rest)) ∨
      no.run ts = .ok (a, rest) := by
  rw [StateT.run_bind, run_accept] at h
  split at h
  · next hword =>
    obtain ⟨t, mid, rfl, ht⟩ := headD_eq hkind hword
    exact .inl ⟨t, mid, rfl, ht, h⟩
  · exact .inr h

theorem run_ifWord_eq_ok {text : String} {yes no : Rule α} {a : α}
    (h : (acceptWord text >>= fun found => if found = true then yes else no).run ts =
      .ok (a, rest)) :
    (∃ t mid, ts = t :: mid ∧ t.spelling = word text ∧ yes.run mid = .ok (a, rest)) ∨
      no.run ts = .ok (a, rest) :=
  run_ifText_eq_ok (by decide) h

theorem run_ifOperator_eq_ok {text : String} {yes no : Rule α} {a : α}
    (h : (acceptOperator text >>= fun found => if found = true then yes else no).run ts =
      .ok (a, rest)) :
    (∃ t mid, ts = t :: mid ∧ t.spelling = sign text ∧ yes.run mid = .ok (a, rest)) ∨
      no.run ts = .ok (a, rest) :=
  run_ifText_eq_ok (by decide) h

/-- A word that is there is passed over. -/
theorem run_ifText_of_eq {t : Token} {kind : Token.Kind} {text : String} (yes no : Rule α)
    (ht : t.spelling = (kind, text)) :
    (accept (·.isText kind text) >>= fun found => if found = true then yes else no).run (t :: ts) =
      yes.run ts := by
  have hword : t.isText kind text = true := spelling_eq_iff.1 ht
  rw [StateT.run_bind, run_accept, List.headD_cons, if_pos hword]
  rfl

/-- Without the word, the rule goes the other way. -/
theorem run_ifText_of_ne {kind : Token.Kind} {text : String} (hkind : kind ≠ .endMarker)
    (yes no : Rule α) (h : ∀ t ∈ ts.head?, t.spelling ≠ (kind, text)) :
    (accept (·.isText kind text) >>= fun found => if found = true then yes else no).run ts =
      no.run ts := by
  rw [StateT.run_bind, run_accept, isText_headD_eq_false hkind h]
  rfl

theorem run_ifWord_of_eq {t : Token} {text : String} (yes no : Rule α) (ht : t.spelling = word text) :
    (acceptWord text >>= fun found => if found = true then yes else no).run (t :: ts) = yes.run ts :=
  run_ifText_of_eq yes no ht

theorem run_ifWord_of_ne {text : String} (yes no : Rule α)
    (h : ∀ t ∈ ts.head?, t.spelling ≠ word text) :
    (acceptWord text >>= fun found => if found = true then yes else no).run ts = no.run ts :=
  run_ifText_of_ne (by decide) yes no h

theorem run_ifOperator_of_eq {t : Token} {text : String} (yes no : Rule α) (ht : t.spelling = sign text) :
    (acceptOperator text >>= fun found => if found = true then yes else no).run (t :: ts) =
      yes.run ts :=
  run_ifText_of_eq yes no ht

theorem run_ifOperator_of_ne {text : String} (yes no : Rule α)
    (h : ∀ t ∈ ts.head?, t.spelling ≠ sign text) :
    (acceptOperator text >>= fun found => if found = true then yes else no).run ts = no.run ts :=
  run_ifText_of_ne (by decide) yes no h

theorem run_requireOperator {t : Token} {text : String} (ht : t.spelling = sign text) :
    (requireOperator text).run (t :: ts) = .ok ((), ts) :=
  run_ifOperator_of_eq _ _ ht

theorem requireOperator_eq_ok {text : String} {u : Unit}
    (h : (requireOperator text).run ts = .ok (u, rest)) :
    ∃ t, ts = t :: rest ∧ t.spelling = sign text := by
  replace h := run_ifOperator_eq_ok h
  rcases h with ⟨t, mid, rfl, ht, h⟩ | h
  · obtain ⟨-, rfl⟩ := run_pure_eq_ok h
    exact ⟨t, rfl, ht⟩
  · exact absurd h stopHere_ne_ok

/-! ### Operators -/

theorem ofSymbol?_eq_some {text : String} {op : BinaryOp} (h : BinaryOp.ofSymbol? text = some op) :
    op ∈ BinaryOp.leftAssociative ∧ op.symbol = text := by
  refine ⟨List.mem_of_find?_eq_some h, ?_⟩
  simpa using List.find?_some h

theorem ofSymbol?_symbol {op : BinaryOp} (h : op ∈ BinaryOp.leftAssociative) :
    BinaryOp.ofSymbol? op.symbol = some op := by
  revert op
  decide

theorem strength_bounds {op : BinaryOp} (h : op ∈ BinaryOp.leftAssociative) :
    1 ≤ op.strength ∧ op.strength ≤ 6 := by
  revert op
  decide

/-- The left-associative operator that a token is, if it is one. -/
def binaryOf? (t : Token) : Option BinaryOp :=
  if t.kind = .operator then BinaryOp.ofSymbol? t.text else none

theorem binaryOf?_eq_some {t : Token} {op : BinaryOp} (h : binaryOf? t = some op) :
    op ∈ BinaryOp.leftAssociative ∧ t.spelling = sign op.symbol := by
  unfold binaryOf? at h
  split at h
  · next hkind =>
    obtain ⟨hop, hsymbol⟩ := ofSymbol?_eq_some h
    exact ⟨hop, Prod.ext hkind hsymbol.symm⟩
  · cases h

theorem binaryOf?_of_spelling {t : Token} {op : BinaryOp} (hop : op ∈ BinaryOp.leftAssociative)
    (ht : t.spelling = sign op.symbol) : binaryOf? t = some op := by
  rw [Token.spelling, Prod.mk.injEq] at ht
  rw [binaryOf?, if_pos ht.1, ht.2, ofSymbol?_symbol hop]

theorem run_binaryOp? (least : Nat) (ts : List Token) :
    (binaryOp? least).run ts =
      match (binaryOf? (ts.headD endToken)).filter (least < ·.strength) with
      | some op => .ok (some op, ts.tail)
      | none => .ok (none, ts) := by
  rw [binaryOp?, run_bind_of_ok (run_peek ts), binaryOf?]
  split
  · cases BinaryOp.ofSymbol? (ts.headD endToken).text with
    | none => rfl
    | some op =>
      by_cases hop : op.strength ≤ least
      · simp only [Option.filter, hop, Nat.not_lt.2 hop, decide_false, if_true]
        rfl
      · have hless : least < op.strength := Nat.lt_of_not_le hop
        simp only [Option.filter, hless, decide_true, if_true, if_neg hop]
        rfl
  · rfl

/-- An operator that is found binds tighter than `least`; without one, none such is ahead. -/
theorem binaryOp?_eq_ok {least : Nat} {found : Option BinaryOp}
    (h : (binaryOp? least).run ts = .ok (found, rest)) :
    (∃ op t, found = some op ∧ ts = t :: rest ∧ binaryOf? t = some op ∧ least < op.strength) ∨
      (found = none ∧ rest = ts ∧
        ∀ op, binaryOf? (ts.headD endToken) = some op → op.strength ≤ least) := by
  rw [run_binaryOp?] at h
  split at h
  · next op hop =>
    obtain ⟨hop, hleast⟩ := Option.filter_eq_some_iff.1 hop
    cases ts with
    | nil => cases hop
    | cons t rest =>
      cases h
      exact .inl ⟨op, t, rfl, rfl, hop, by simpa using hleast⟩
  · next hnone =>
    cases h
    refine .inr ⟨rfl, rfl, fun op hop => ?_⟩
    rw [hop] at hnone
    simpa [Option.filter] using hnone

/-- The sign that is found is the next token. -/
theorem unaryOp?_eq_ok {found : Option UnaryOp} (h : unaryOp?.run ts = .ok (found, rest)) :
    (∃ op t, found = some op ∧ ts = t :: rest ∧ t.spelling = sign op.symbol) ∨
      (found = none ∧ rest = ts) := by
  replace h := run_ifOperator_eq_ok h
  rcases h with ⟨t, mid, rfl, ht, h⟩ | h
  · obtain ⟨rfl, rfl⟩ := run_pure_eq_ok h
    exact .inl ⟨.neg, t, rfl, rfl, ht⟩
  replace h := run_ifOperator_eq_ok h
  rcases h with ⟨t, mid, rfl, ht, h⟩ | h
  · obtain ⟨rfl, rfl⟩ := run_pure_eq_ok h
    exact .inl ⟨.pos, t, rfl, rfl, ht⟩
  replace h := run_ifOperator_eq_ok h
  rcases h with ⟨t, mid, rfl, ht, h⟩ | h
  · obtain ⟨rfl, rfl⟩ := run_pure_eq_ok h
    exact .inl ⟨.invert, t, rfl, rfl, ht⟩
  · obtain ⟨rfl, rfl⟩ := run_pure_eq_ok h
    exact .inr ⟨rfl, rfl⟩

/-- The comparison operator that is found is made of the next one or two tokens. -/
theorem compareOp?_eq_ok {found : Option CompareOp} (h : compareOp?.run ts = .ok (found, rest)) :
    (∃ op used, found = some op ∧ ts = used ++ rest ∧ used.map Token.spelling = op.words) ∨
      (found = none ∧ rest = ts) := by
  -- one more operator that is tried, of one word or of two
  have hone {kind : Token.Kind} {text : String} {op : CompareOp} {others : Rule (Option CompareOp)}
      (hkind : kind ≠ .endMarker) (hwords : op.words = [(kind, text)])
      (h : (if (ts.headD endToken).isText kind text then (advance >>= fun _ => pure (some op))
        else others).run ts = .ok (found, rest)) :
      (∃ op used, found = some op ∧ ts = used ++ rest ∧ used.map Token.spelling = op.words) ∨
        others.run ts = .ok (found, rest) := by
    split at h
    · next ht =>
      obtain ⟨t, more, rfl, hspelling⟩ := headD_eq hkind ht
      cases h
      exact .inl ⟨op, [t], rfl, rfl, by simp [hspelling, hwords]⟩
    · exact .inr h
  have htwo {first second : String} {op : CompareOp} {others : Rule (Option CompareOp)}
      (hwords : op.words = [word first, word second])
      (h : (if ((ts.headD endToken).isName first && (ts.tail.headD endToken).isName second) = true then
        (advance >>= fun _ => advance >>= fun _ => pure (some op)) else others).run ts =
          .ok (found, rest)) :
      (∃ op used, found = some op ∧ ts = used ++ rest ∧ used.map Token.spelling = op.words) ∨
        others.run ts = .ok (found, rest) := by
    split at h
    · next ht =>
      rw [Bool.and_eq_true] at ht
      obtain ⟨t, more, rfl, hfirst⟩ := headD_eq (by decide) ht.1
      obtain ⟨t', more', heq, hsecond⟩ := headD_eq (by decide) ht.2
      rw [List.tail_cons] at heq
      subst heq
      cases h
      exact .inl ⟨op, [t, t'], rfl, rfl, by simp [hfirst, hsecond, hwords]⟩
    · exact .inr h
  rw [compareOp?, run_bind_of_ok (run_peek ts), run_bind_of_ok (run_peekSecond ts)] at h
  dsimp only at h
  refine (hone (by decide) rfl h).elim .inl fun h => ?_
  refine (hone (by decide) rfl h).elim .inl fun h => ?_
  refine (hone (by decide) rfl h).elim .inl fun h => ?_
  refine (hone (by decide) rfl h).elim .inl fun h => ?_
  refine (hone (by decide) rfl h).elim .inl fun h => ?_
  refine (hone (by decide) rfl h).elim .inl fun h => ?_
  refine (hone (by decide) rfl h).elim .inl fun h => ?_
  refine (htwo rfl h).elim .inl fun h => ?_
  refine (htwo rfl h).elim .inl fun h => ?_
  refine (hone (by decide) rfl h).elim .inl fun h => ?_
  obtain ⟨rfl, rfl⟩ := run_pure_eq_ok h
  exact .inr ⟨rfl, rfl⟩

end Quasiquote.Host.Parser
