import Mathlib.Data.List.Basic
import Mathlib.Data.List.TakeWhile
import Quasiquote.Proofs.Basic
import Quasiquote.Proofs.Source.Canonical
import Quasiquote.Proofs.Source.Words

/-!
# Block structure

Indents and dedents come in pairs, however tokens and raw texts are read in turn, and lines and blocks
begin and end outside brackets only.

## Main Definitions

* `Lexer.Exchange` — a call of a reader and its answer
* `Lexer.Reaches` — a run of calls without an error, and the reader behind it
* `Lexer.WellNested` — what is known of the open levels and brackets behind a run
* `Paired` — tokens whose indents and dedents come in pairs

## Main Statements

* `Lexer.shifts_next` — what a token does to the open levels and brackets
* `Lexer.WellNested.call` — what one call keeps
* `blocks_wellFormed` — the block structure of every run, and of all tokens of a source

## Design Notes

The levels are counted with the dedents that are due: a reader that closes several levels at once gives
one dedent and owes the others. Brackets are counted twice, once by the reader and once from what has
been read; the two agree, so that the second count tells when a line may end.
-/

namespace Quasiquote

namespace Token

/-- The bracket depth behind a token. Only operators are brackets. -/
def nest (depth : Nat) (t : Token) : Nat :=
  if t.kind = .operator then t.text.toList.foldl Scan.nest depth else depth

/-- A token that is read outside brackets only: an indent, the end of a logical line that has a text, and
a dedent before the end of the source. -/
def ReadOutside (text : List Char) (t : Token) : Prop :=
  t.kind = .indent ∨ (t.kind = .newline ∧ t.text ≠ "") ∨
    (t.kind = .dedent ∧ t.stop.offset < byteLength text)

end Token

namespace Scan

/-- The brackets that open nesting. -/
def openers : List Char := "([\x7b".toList

/-- Outside brackets, text that opens none stays outside. -/
theorem nest_zero_of_notMem {c : Char} (h : c ∉ openers) : nest 0 c = 0 := by
  have hopen : ¬ (c = '(' ∨ c = '[' ∨ c = '\x7b') := by
    rintro (rfl | rfl | rfl) <;> exact h (by decide)
  rw [nest, if_neg hopen]
  split <;> rfl

theorem foldl_nest_zero {text : List Char} (h : ∀ c ∈ text, c ∉ openers) :
    text.foldl nest 0 = 0 := by
  induction text with
  | nil => rfl
  | cons c text ih =>
    rw [List.foldl_cons, nest_zero_of_notMem (h c List.mem_cons_self)]
    exact ih fun d hd => h d (List.mem_cons_of_mem c hd)

theorem foldl_nest_of_not_bracket {text : List Char} (h : ∀ c ∈ text, c ∉ brackets) (depth : Nat) :
    text.foldl nest depth = depth := by
  induction text with
  | nil => rfl
  | cons c text ih =>
    rw [List.foldl_cons, nest_of_not_bracket (h c List.mem_cons_self)]
    exact ih fun d hd => h d (List.mem_cons_of_mem c hd)

/-- A longer operator holds no bracket. -/
theorem operators_not_bracket :
    (∀ op ∈ operators3, ∀ c ∈ op, c ∉ brackets) ∧ ∀ op ∈ operators2, ∀ c ∈ op, c ∉ brackets := by
  decide

/-- The brackets of an operator are its first character, if any. -/
theorem foldl_nest_operator {c : Char} {text : List Char} {n : Nat}
    (h : operatorLength (c :: text) = n + 1) (depth : Nat) :
    (text.take n).foldl nest (nest depth c) = nest depth c := by
  match n with
  | 0 => rfl
  | m + 1 =>
    -- all characters of a longer operator are plain
    have hplain : ∀ d ∈ (c :: text).take (m + 2), d ∉ brackets := by
      rw [operatorLength_eq] at h
      split at h
      · next hmem =>
        obtain rfl : m = 1 := by omega
        exact operators_not_bracket.1 _ hmem
      split at h
      · next hmem =>
        obtain rfl : m = 0 := by omega
        exact operators_not_bracket.2 _ hmem.1
      · split at h <;> omega
    apply foldl_nest_of_not_bracket
    intro d hd
    exact hplain d (by rw [List.take_succ_cons]; exact List.mem_cons_of_mem c hd)

end Scan

namespace Lexer

/-! ### Runs of calls -/

/-- Whether an answer is an error. -/
def Reply.isError : Reply → Bool
  | error _ => true
  | _ => false

/-- A call and its answer. -/
structure Exchange where
  call : Call
  reply : Reply
deriving DecidableEq, Repr

namespace Exchange

/-- The token that was read, if one was. -/
def token? : Exchange → Option Token
  | ⟨_, .token t⟩ => some t
  | _ => none

/-- The bracket depth behind an exchange. The brackets of a token count, and so do those of a closing
sequence that was found. -/
def nest (depth : Nat) : Exchange → Nat
  | ⟨_, .token t⟩ => t.nest depth
  | ⟨.upTo close, .raw _⟩ => close.toList.foldl Scan.nest depth
  | _ => depth

end Exchange

/-- The kinds of the tokens that were read. -/
def kinds (history : List Exchange) : List Token.Kind :=
  (history.filterMap Exchange.token?).map Token.kind

/-- The bracket depth of all that was read. -/
def depthOf (history : List Exchange) : Nat := history.foldl Exchange.nest 0

/-- **When a call is in place.** A block is asked for right behind the end of a logical line; a closing
sequence opens no brackets. -/
def Admits (history : List Exchange) : Call → Prop
  | .token => True
  | .block => ∃ last t, history.getLast? = some last ∧ last.token? = some t ∧ t.kind = .newline
  | .upTo close => ∀ c ∈ close.toList, c ∉ Scan.openers

/-- **A run of calls without an error,** and the reader behind it. -/
inductive Reaches (start : Lexer) : List Exchange → Lexer → Prop
  | start : Reaches start [] start
  | call {history : List Exchange} {lx rest : Lexer} {c : Call} {reply : Reply} :
      Reaches start history lx → Admits history c → lx.call c = (reply, rest) →
      reply.isError = false → Reaches start (history ++ [⟨c, reply⟩]) rest

/-- One more call, if it is in place and answered without an error. -/
theorem Reaches.then {start lx : Lexer} {history : List Exchange} (h : start.Reaches history lx)
    (c : Call) (hadmits : Admits history c) (hclean : (lx.call c).1.isError = false) :
    start.Reaches (history ++ [⟨c, (lx.call c).1⟩]) (lx.call c).2 :=
  .call h hadmits rfl hclean

/-! ### What a token does to levels and brackets -/

/-- **What a token does to levels and brackets.** -/
inductive Shifts (lx : Lexer) (t : Token) (rest : Lexer) : Prop
  /-- A dedent that was due. -/
  | due : t.kind = .dedent → lx.pendingDedents = rest.pendingDedents + 1 →
      rest.indents = lx.indents → rest.depth = lx.depth → Shifts lx t rest
  /-- A deeper line opens a level. -/
  | deeper {width : Nat} : t.kind = .indent → lx.pendingDedents = 0 → rest.pendingDedents = 0 →
      lx.indent < width → rest.indents = width :: lx.indents → lx.depth = 0 → rest.depth = 0 →
      Shifts lx t rest
  /-- A shallower line closes levels: one token now, the others due. -/
  | shallower {width : Nat} : t.kind = .dedent → lx.pendingDedents = 0 → width < lx.indent →
      rest.indents = lx.indents.dropWhile (width < ·) → rest.indent = width →
      rest.pendingDedents = lx.indents.length - rest.indents.length - 1 → lx.depth = 0 →
      rest.depth = 0 → Shifts lx t rest
  /-- The end of the text closes a level. -/
  | ended : t.kind = .dedent → rest.ahead = [] → lx.pendingDedents = 0 → rest.pendingDedents = 0 →
      1 < lx.indents.length → rest.indents = lx.indents.tail → rest.depth = lx.depth →
      Shifts lx t rest
  /-- All other tokens leave the levels alone. -/
  | level : t.kind ≠ .indent → t.kind ≠ .dedent → lx.pendingDedents = 0 → rest.pendingDedents = 0 →
      rest.indents = lx.indents → rest.depth = t.nest lx.depth →
      (t.kind = .newline → t.text ≠ "" → lx.depth = 0) →
      (t.kind = .endMarker → lx.indents.length ≤ 1) → Shifts lx t rest

/-- What a reader knows of levels and brackets. -/
def nesting (lx : Lexer) : List Nat × Nat × Nat := (lx.indents, lx.pendingDedents, lx.depth)

/-- How a token shifts levels is a matter of levels and brackets. -/
theorem Shifts.congr {lx lx' rest : Lexer} {t : Token} (h : Shifts lx t rest)
    (hsame : lx'.nesting = lx.nesting) : Shifts lx' t rest := by
  simp only [nesting, Prod.mk.injEq] at hsame
  obtain ⟨hi, hp, hd⟩ := hsame
  have hindent : lx'.indent = lx.indent := by rw [indent, hi, indent]
  cases h with
  | due hk hdue hindents hdepth => exact .due hk (hp ▸ hdue) (hi ▸ hindents) (hd ▸ hdepth)
  | deeper hk hdue hdue' hwidth hindents hdepth hdepth' =>
    exact .deeper hk (hp ▸ hdue) hdue' (hindent ▸ hwidth) (hi ▸ hindents) (hd ▸ hdepth) hdepth'
  | shallower hk hdue hwidth hindents hlevel hdue' hdepth hdepth' =>
    exact .shallower hk (hp ▸ hdue) (hindent ▸ hwidth) (hi ▸ hindents) hlevel (hi ▸ hdue')
      (hd ▸ hdepth) hdepth'
  | ended hk hnil hdue hdue' hlevels hindents hdepth =>
    exact .ended hk hnil (hp ▸ hdue) hdue' (hi ▸ hlevels) (hi ▸ hindents) (hd ▸ hdepth)
  | level hk hk' hdue hdue' hindents hdepth hline hend =>
    exact .level hk hk' (hp ▸ hdue) hdue' (hi ▸ hindents) (hd ▸ hdepth) (hd ▸ hline) (hi ▸ hend)

/-- An operator counts as its characters do. -/
theorem nest_lexemeStep {lx rest : Lexer} {t : Token} {c : Char} {text : List Char}
    {kind : Token.Kind} {n : Nat} (hcons : lx.ahead = c :: text)
    (hlexeme : Scan.lexeme (c :: text) = some (kind, n))
    (h : lx.lexemeStep c kind n = (.ok t, rest)) : rest.depth = t.nest lx.depth := by
  cases h
  have hnest := Scan.nest_of_lexeme hlexeme (text.take (n - 1)) lx.depth
  show Scan.nest lx.depth c = _
  obtain ⟨hpos, -⟩ := Scan.lexeme_length hlexeme
  obtain ⟨m, rfl⟩ : ∃ m, n = m + 1 := ⟨n - 1, by omega⟩
  by_cases hk : kind = .operator
  · -- no operator but one of a single character is a bracket
    subst hk
    have hcount := Scan.foldl_nest_operator (Scan.operatorLength_of_lexeme hlexeme) lx.depth
    simpa [Token.nest, token, hcons] using hcount.symm
  · rw [hnest, Token.nest, if_neg (by simpa [token] using hk)]
    unfold Scan.nestWord
    split
    · next heq => exact absurd (congrArg Prod.fst heq) hk
    · rfl

theorem shifts_endOfSource {lx rest : Lexer} {t : Token} (hahead : lx.ahead = [])
    (hpending : lx.pendingDedents = 0) (h : lx.endOfSource = (.ok t, rest)) : Shifts lx t rest := by
  rcases endOfSource_cases h with ⟨-, rfl, rfl⟩ | ⟨-, hmore, rfl, rfl⟩ | ⟨-, hlast, rfl, rfl⟩
  · refine .level (by simp [token]) (by simp [token]) hpending hpending rfl rfl ?_ (by simp [token])
    intro _ htext
    exact absurd (by simp [token]) htext
  · exact .ended rfl hahead hpending hpending hmore (List.drop_one) rfl
  · exact .level (by simp [token]) (by simp [token]) hpending hpending rfl rfl (by simp [token])
      fun _ => hlast

theorem shifts_lineToken {lx rest : Lexer} {t : Token} (hpending : lx.pendingDedents = 0)
    (h : lx.lineToken = (.ok t, rest)) : Shifts lx t rest := by
  suffices hpast : Shifts lx.pastBlanks t rest from hpast.congr rfl
  rcases lineToken_cases h with ⟨hnil, hend⟩ | ⟨_, -, hcomment⟩ | ⟨c, _, hcons, hc, hbreak⟩ |
    ⟨c, text, kind, n, hcons, hlexeme, hstep⟩
  · exact shifts_endOfSource hnil hpending hend
  · cases hcomment
    exact .level (by simp [token]) (by simp [token]) hpending hpending rfl rfl (by simp [token])
      (by simp [token])
  · cases hbreak
    refine .level ?_ ?_ hpending hpending rfl ?_ ?_ ?_
    · dsimp only [token]
      split <;> simp
    · dsimp only [token]
      split <;> simp
    · dsimp only [token, Token.nest]
      split <;> rfl
    · dsimp only [token]
      intro hk _
      split at hk
      · next hlogical =>
        rw [Bool.and_eq_true, beq_iff_eq] at hlogical
        exact hlogical.1
      · cases hk
    · dsimp only [token]
      split <;> simp
  · have hword := isWord_of_lexemeStep hlexeme hstep
    have hdepth := nest_lexemeStep hcons hlexeme hstep
    have hkind : ∀ k : Token.Kind, k.isWord = false → t.kind ≠ k := by
      rintro k hk rfl
      rw [hword] at hk
      cases hk
    refine .level (hkind _ rfl) (hkind _ rfl) hpending ?_ ?_ hdepth
      (fun hk => absurd hk (hkind _ rfl)) fun hk => absurd hk (hkind _ rfl)
    · cases hstep
      exact hpending
    · cases hstep
      rfl

/-- **Every token shifts levels and brackets in one of these ways.** -/
theorem shifts_next {lx rest : Lexer} {t : Token} (h : lx.next = (.ok t, rest)) :
    Shifts lx t rest := by
  rcases lx.next_cases with hpending | ⟨hpending, hstart, hdepth, step, hstep⟩ | hat
  · rw [next_of_pending hpending] at h
    cases h
    exact .due rfl (by simp only; omega) rfl rfl
  · rw [next_of_indentation hpending hstart hdepth hstep] at h
    subst h
    rcases indentation_cases hstep with ⟨hdeeper, rfl, rfl⟩ | ⟨hless, hlevel, rfl, rfl⟩
    · exact .deeper rfl hpending hpending hdeeper rfl hdepth hdepth
    · exact .shallower rfl hpending hless rfl hlevel rfl hdepth hdepth
  · rw [next_of_atToken hat] at h
    have hpending : lx.onLine.pendingDedents = 0 := hat.1
    exact (shifts_lineToken hpending h).congr rfl

/-! ### What a run keeps -/

/-- **What is known of the open levels and brackets behind a run.** -/
structure WellNested (history : List Exchange) (lx : Lexer) : Prop where
  /-- The outermost level is not indented. -/
  outermost : lx.indents.getLast? = some 0
  /-- Every level is deeper than the one around it. -/
  deeper : lx.indents.Pairwise (· > ·)
  /-- The indents that no dedent has closed are the levels inside the outermost one, and those whose
  dedents are due. -/
  balance : (kinds history).count .indent + 1 =
    (kinds history).count .dedent + lx.indents.length + lx.pendingDedents
  /-- The reader's bracket depth is that of all it has read. -/
  depth : lx.depth = depthOf history
  /-- Dedents are due outside brackets only. -/
  due : 0 < lx.pendingDedents → lx.depth = 0

namespace WellNested

variable {history : List Exchange} {lx rest : Lexer}

theorem ofChars (text : List Char) : WellNested [] (ofChars text) :=
  ⟨rfl, List.pairwise_singleton _ _, rfl, rfl, fun h => absurd h (Nat.lt_irrefl 0)⟩

theorem indents_ne_nil (h : WellNested history lx) : lx.indents ≠ [] := by
  intro hnil
  have hlast := h.outermost
  rw [hnil] at hlast
  cases hlast

/-- Levels that are left when the inner ones are closed end in the same one. -/
theorem outermost_of_suffix (h : WellNested history lx) {levels : List Nat}
    (hsuffix : levels <:+ lx.indents) (hne : levels ≠ []) : levels.getLast? = some 0 := by
  obtain ⟨inner, hinner⟩ := hsuffix
  rw [← List.getLast?_append_of_ne_nil inner hne, hinner]
  exact h.outermost

/-- What is deeper than the innermost level is deeper than all. -/
theorem lt_of_indent_lt (h : WellNested history lx) {width : Nat} (hwidth : lx.indent < width) :
    ∀ level ∈ lx.indents, level < width := by
  have hdeeper := h.deeper
  unfold indent at hwidth
  cases hlevels : lx.indents with
  | nil => simp
  | cons top outer =>
    rw [hlevels] at hdeeper hwidth
    intro level hmem
    rcases List.mem_cons.1 hmem with rfl | hmem
    · exact hwidth
    · exact Nat.lt_trans (List.rel_of_pairwise_cons hdeeper hmem) hwidth

/-- The outermost level is never closed. -/
theorem dropWhile_ne_nil (h : WellNested history lx) (width : Nat) :
    lx.indents.dropWhile (width < ·) ≠ [] := by
  rw [Ne, List.dropWhile_eq_nil_iff]
  intro hall
  have hzero := hall 0 (List.mem_of_getLast? h.outermost)
  simp at hzero

/-- A shallower line closes the innermost level. -/
theorem length_dropWhile_lt (h : WellNested history lx) {width : Nat} (hwidth : width < lx.indent) :
    (lx.indents.dropWhile (width < ·)).length < lx.indents.length := by
  obtain ⟨top, outer, hlevels⟩ := List.exists_cons_of_ne_nil h.indents_ne_nil
  have htop : width < top := by simpa [indent, hlevels] using hwidth
  rw [hlevels, List.dropWhile_cons, if_pos (by simpa using htop), List.length_cons]
  have := (List.dropWhile_suffix (l := outer) (width < ·)).length_le
  omega

/-- A token keeps the nesting. -/
theorem token {t : Token} (h : WellNested history lx) (hnext : lx.next = (.ok t, rest)) :
    WellNested (history ++ [⟨.token, .token t⟩]) rest := by
  have hkinds : kinds (history ++ [⟨.token, .token t⟩]) = kinds history ++ [t.kind] := by
    simp [kinds, Exchange.token?]
  have hdepthOf : depthOf (history ++ [⟨.token, .token t⟩]) = t.nest (depthOf history) := by
    simp [depthOf, Exchange.nest]
  have hnest (hk : t.kind ≠ .operator) : t.nest (depthOf history) = depthOf history := if_neg hk
  have hne := List.length_pos_iff.2 h.indents_ne_nil
  have hbalance := h.balance
  cases shifts_next hnext with
  | due hk hdue hindents hdepth =>
    refine ⟨hindents ▸ h.outermost, hindents ▸ h.deeper, ?_, ?_, fun hpos => ?_⟩
    · rw [hkinds, hk, hindents]
      simp
      omega
    · rw [hdepthOf, hnest (by simp [hk]), hdepth, h.depth]
    · rw [hdepth]
      exact h.due (by omega)
  | deeper hk hdue hdue' hwidth hindents hdepth hdepth' =>
    refine ⟨?_, ?_, ?_, ?_, fun _ => hdepth'⟩
    · rw [hindents, List.getLast?_cons_of_ne_nil h.indents_ne_nil]
      exact h.outermost
    · rw [hindents]
      exact .cons (h.lt_of_indent_lt hwidth) h.deeper
    · rw [hkinds, hk, hindents, hdue']
      simp
      omega
    · rw [hdepthOf, hnest (by simp [hk]), hdepth', ← h.depth, hdepth]
  | shallower hk hdue hwidth hindents hlevel hdue' hdepth hdepth' =>
    have hsuffix : rest.indents <:+ lx.indents := hindents ▸ List.dropWhile_suffix _
    have hless : rest.indents.length < lx.indents.length := hindents ▸ h.length_dropWhile_lt hwidth
    have hrest : rest.indents ≠ [] := hindents ▸ h.dropWhile_ne_nil _
    refine ⟨h.outermost_of_suffix hsuffix hrest, h.deeper.sublist hsuffix.sublist, ?_, ?_,
      fun _ => hdepth'⟩
    · rw [hkinds, hk, hdue']
      simp
      omega
    · rw [hdepthOf, hnest (by simp [hk]), hdepth', ← h.depth, hdepth]
  | ended hk hnil hdue hdue' hlevels hindents hdepth =>
    have hsuffix : rest.indents <:+ lx.indents := hindents ▸ List.tail_suffix _
    have hrest : rest.indents ≠ [] := by
      rw [hindents, ← List.length_pos_iff, List.length_tail]
      omega
    refine ⟨h.outermost_of_suffix hsuffix hrest, h.deeper.sublist hsuffix.sublist, ?_, ?_,
      fun hpos => by omega⟩
    · rw [hkinds, hk, hdue', hindents]
      simp
      omega
    · rw [hdepthOf, hnest (by simp [hk]), hdepth, h.depth]
  | level hk hk' hdue hdue' hindents hdepth hline hend =>
    refine ⟨hindents ▸ h.outermost, hindents ▸ h.deeper, ?_, ?_, fun hpos => ?_⟩
    · rw [hkinds, hindents, hdue']
      simp [hk, hk']
      omega
    · rw [hdepthOf, hdepth, h.depth]
    · omega

/-- A call that gives no token keeps levels as they are. -/
theorem of_same (h : WellNested history lx) {exchange : Exchange} (htoken : exchange.token? = none)
    (hindents : rest.indents = lx.indents) (hdue : rest.pendingDedents = lx.pendingDedents)
    (hdepth : rest.depth = exchange.nest lx.depth)
    (houtside : lx.depth = 0 → rest.depth = 0) : WellNested (history ++ [exchange]) rest where
  outermost := hindents ▸ h.outermost
  deeper := hindents ▸ h.deeper
  balance := by
    have hkinds : kinds (history ++ [exchange]) = kinds history := by simp [kinds, htoken]
    rw [hkinds, hindents, hdue]
    exact h.balance
  depth := by
    rw [hdepth, h.depth]
    simp [depthOf]
  due hpos := houtside (h.due (hdue ▸ hpos))

/-- **A call keeps the nesting.** -/
theorem call {c : Call} {reply : Reply} (h : WellNested history lx) (hadmits : Admits history c)
    (hcall : lx.call c = (reply, rest)) (hclean : reply.isError = false) :
    WellNested (history ++ [⟨c, reply⟩]) rest := by
  cases c with
  | token =>
    simp only [Lexer.call] at hcall
    split at hcall
    · next t rest hnext =>
      cases hcall
      exact h.token hnext
    · cases hcall
      cases hclean
  | block =>
    simp only [Lexer.call] at hcall
    split at hcall
    · next raw rest hblock =>
      cases hcall
      obtain ⟨-, -, -, _, _, _, rfl⟩ := takeIndentedBlock_eq hblock
      exact h.of_same rfl rfl rfl rfl id
    · cases hcall
      exact h.of_same rfl rfl rfl rfl id
  | upTo close =>
    simp only [Lexer.call] at hcall
    split at hcall
    · next raw rest huntil =>
      cases hcall
      obtain ⟨-, _, _, _, rfl⟩ := takeUntil_eq huntil
      refine h.of_same rfl rfl rfl rfl fun hdepth => ?_
      show close.toList.foldl Scan.nest lx.depth = 0
      rw [hdepth]
      exact Scan.foldl_nest_zero hadmits
    · cases hcall
      exact h.of_same rfl rfl rfl rfl id

end WellNested

/-- **What a run keeps.** -/
theorem Reaches.wellNested {text : List Char} {history : List Exchange} {lx : Lexer}
    (h : (ofChars text).Reaches history lx) : WellNested history lx := by
  induction h with
  | start => exact .ofChars text
  | call _ hadmits hcall hclean ih => exact ih.call hadmits hcall hclean

theorem Reaches.placed {text : List Char} {history : List Exchange} {lx : Lexer}
    (h : (ofChars text).Reaches history lx) : Placed text lx := by
  induction h with
  | start => exact placed_ofChars text
  | call _ _ hcall hclean ih =>
    refine (call_placed ih hcall).2.2 ?_
    rintro e rfl
    cases hclean

/-- **Lines and blocks begin and end outside brackets.** -/
theorem Reaches.depth_of_readOutside {text : List Char} {history : List Exchange} {lx rest : Lexer}
    {t : Token} (h : (ofChars text).Reaches history lx) (hnext : lx.next = (.ok t, rest))
    (houtside : t.ReadOutside text) : depthOf history = 0 := by
  have hnested := h.wellNested
  rw [← hnested.depth]
  cases shifts_next hnext with
  | due _ hdue => exact hnested.due (by omega)
  | deeper _ _ _ _ _ hdepth => exact hdepth
  | shallower _ _ _ _ _ _ hdepth => exact hdepth
  | ended hk hnil =>
    rcases houtside with hk' | ⟨hk', -⟩ | ⟨-, hoffset⟩
    · cases hk.symm.trans hk'
    · cases hk.symm.trans hk'
    · -- behind the token there is no text left
      obtain ⟨gap, htakes⟩ := takes_next hnext
      obtain ⟨before, htext, -, hbefore⟩ := (h.placed.moves htakes.moves).exists_before
      rw [htakes.stop_offset, hbefore, htext, hnil, List.append_nil] at hoffset
      exact absurd hoffset (Nat.lt_irrefl _)
  | level hk hk' _ _ _ _ hline =>
    rcases houtside with hindent | ⟨hnewline, htext⟩ | ⟨hdedent, -⟩
    · exact absurd hindent hk
    · exact hline hnewline htext
    · exact absurd hdedent hk'

/-! ### All tokens of a source -/

/-- Every part of a run is a run. -/
theorem Reaches.of_prefix {start lx : Lexer} {history front : List Exchange}
    (h : start.Reaches history lx) (hfront : front <+: history) :
    ∃ mid, start.Reaches front mid := by
  induction h with
  | start =>
    rw [List.prefix_nil] at hfront
    exact ⟨start, hfront ▸ .start⟩
  | @call history lx rest c reply h hadmits hcall hclean ih =>
    rcases List.prefix_concat_iff.1 hfront with rfl | hfront
    · exact ⟨rest, .call h hadmits hcall hclean⟩
    · exact ih hfront

/-- A token that was asked for. -/
def given (t : Token) : Exchange := ⟨.token, .token t⟩

theorem kinds_given (tokens : List Token) : kinds (tokens.map given) = tokens.map Token.kind := by
  induction tokens with
  | nil => rfl
  | cons t tokens ih =>
    rw [List.map_cons, List.map_cons, ← ih]
    rfl

/-- All tokens up to the end marker are a run, behind which no level is open. -/
theorem Reaches.all {start lx : Lexer} (hrun : lx.run.2 = none) :
    ∀ {history : List Exchange}, start.Reaches history lx →
      ∃ rest, start.Reaches (history ++ lx.run.1.map given) rest ∧
        rest.indents.length ≤ 1 ∧ rest.pendingDedents = 0 := by
  have hgiven {lx rest : Lexer} {t : Token} {history : List Exchange}
      (h : start.Reaches history lx) (hnext : lx.next = (.ok t, rest)) :
      start.Reaches (history ++ [given t]) rest :=
    .call h trivial (by simp only [Lexer.call, hnext]) rfl
  fun_induction Lexer.run lx with
  | case1 => simp at hrun
  | case2 lx t rest hnext hk =>
    intro history h
    refine ⟨rest, hgiven h hnext, ?_⟩
    cases shifts_next hnext with
    | due hk' => cases hk.symm.trans hk'
    | deeper hk' => cases hk.symm.trans hk'
    | shallower hk' => cases hk.symm.trans hk'
    | ended hk' => cases hk.symm.trans hk'
    | level _ _ _ hdue hindents _ _ hend => exact ⟨hindents ▸ hend hk, hdue⟩
  | case3 lx t rest hnext hk later ih =>
    intro history h
    obtain ⟨last, hlast, hend⟩ := ih hrun (hgiven h hnext)
    rw [List.append_assoc] at hlast
    exact ⟨last, hlast, hend⟩

/-- The end marker comes last, and once. -/
theorem endMarker_run {lx : Lexer} (hrun : lx.run.2 = none) :
    ∃ front last, lx.run.1 = front ++ [last] ∧ last.kind = .endMarker ∧
      ∀ t ∈ front, t.kind ≠ .endMarker := by
  fun_induction run lx with
  | case1 => simp at hrun
  | case2 lx t rest hnext hk => exact ⟨[], t, rfl, hk, by simp⟩
  | case3 lx t rest hnext hk later ih =>
    obtain ⟨front, last, hsplit, hlast, hfront⟩ := ih hrun
    refine ⟨t :: front, last, by rw [hsplit]; rfl, hlast, ?_⟩
    rw [List.forall_mem_cons]
    exact ⟨hk, hfront⟩

end Lexer

/-- **Tokens whose indents and dedents come in pairs,** up to a single end marker. -/
structure Paired (tokens : List Token) : Prop where
  /-- No level is closed before it is opened. -/
  opened : ∀ front, front <+: tokens →
    (front.map Token.kind).count .dedent ≤ (front.map Token.kind).count .indent
  /-- Every level is closed. -/
  closed : (tokens.map Token.kind).count .dedent = (tokens.map Token.kind).count .indent
  endMarker : ∃ front last, tokens = front ++ [last] ∧ last.kind = .endMarker ∧
    ∀ t ∈ front, t.kind ≠ .endMarker

theorem paired_tokenize {source : String} {tokens : List Token}
    (h : tokenize source = .ok tokens) : Paired tokens := by
  have hall := Lexer.run_of_tokenize h
  obtain ⟨hrun, rfl⟩ : (Lexer.ofSource source).run.2 = none ∧
      (Lexer.ofSource source).run.1 = tokens := by
    rw [hall]
    exact ⟨rfl, rfl⟩
  obtain ⟨rest, hreaches, hindents, hdue⟩ := Lexer.Reaches.all hrun .start
  rw [List.nil_append] at hreaches
  have hbalance {front : List Token} {mid : Lexer}
      (h : (Lexer.ofSource source).Reaches (front.map Lexer.given) mid) :
      0 < mid.indents.length ∧ (front.map Token.kind).count .indent + 1 =
        (front.map Token.kind).count .dedent + mid.indents.length + mid.pendingDedents := by
    have hnested := h.wellNested
    exact ⟨List.length_pos_iff.2 hnested.indents_ne_nil,
      Lexer.kinds_given front ▸ hnested.balance⟩
  refine ⟨fun front hfront => ?_, ?_, Lexer.endMarker_run hrun⟩
  · obtain ⟨mid, hmid⟩ := hreaches.of_prefix (hfront.map Lexer.given)
    obtain ⟨hpos, hcount⟩ := hbalance hmid
    omega
  · obtain ⟨hpos, hcount⟩ := hbalance hreaches
    omega

/-- **Block structure is well formed.** In every state that a run of calls without an error reaches, the
levels and brackets are well nested, and the next token, if it ends a line or opens or closes a block,
stands outside brackets. In all tokens of a source, indents and dedents come in pairs. -/
theorem blocks_wellFormed (source : String) :
    (∀ history lx, (Lexer.ofSource source).Reaches history lx → Lexer.WellNested history lx ∧
      ∀ t rest, lx.next = (.ok t, rest) → t.ReadOutside (stripMark source.toList) →
        Lexer.depthOf history = 0) ∧
    ∀ tokens, tokenize source = .ok tokens → Paired tokens :=
  ⟨fun _ _ h => ⟨h.wellNested, fun _ _ hnext houtside => h.depth_of_readOutside hnext houtside⟩,
    fun _ h => paired_tokenize h⟩

/-- An indented line with a bracket that is closed by a raw text. -/
def nestedSource : String := "  [$q|x|]\ny"

/-- Two levels that one line closes. -/
def twoLevels : String := "if a:\n  if b:\n    c\nd"

theorem nestedSource_wellFormed :
    (∃ history lx t rest, (Lexer.ofSource nestedSource).Reaches history lx ∧
      lx.next = (.ok t, rest) ∧ t.ReadOutside (stripMark nestedSource.toList) ∧
      (Lexer.kinds history).count .indent = 1 ∧ Lexer.WellNested history lx ∧
      Lexer.depthOf history = 0) ∧
    ∃ tokens, tokenize twoLevels = .ok tokens ∧
      (tokens.map Token.kind).count .dedent = 2 ∧ Paired tokens := by
  constructor
  · let lx : Lexer :=
      { behind := "  [$q|x|]".toList.reverse, ahead := "\ny".toList, here := ⟨9, 1, 9⟩,
        indents := [2, 0], depth := 0, atLineStart := false, lineHasContent := true,
        pendingDedents := 0 }
    let t : Token := ⟨.newline, "\n", ⟨9, 1, 9⟩, ⟨10, 1, 10⟩, "  [$q|x|]\n"⟩
    have hclose : ∀ c ∈ "|]".toList, c ∉ Scan.openers := by decide
    have hstart : (Lexer.ofSource nestedSource).Reaches [] (Lexer.ofSource nestedSource) := .start
    have htokens := hstart
      |>.then .token trivial (by decide +kernel)
      |>.then .token trivial (by decide +kernel)
      |>.then .token trivial (by decide +kernel)
      |>.then .token trivial (by decide +kernel)
    have h : (Lexer.ofSource nestedSource).Reaches _ lx :=
      htokens.call (c := .upTo "|]") hclose (Prod.ext rfl (by decide +kernel)) (by decide +kernel)
    obtain ⟨hwell, houtside⟩ := (blocks_wellFormed nestedSource).1 _ _ h
    have hnext : lx.next = (.ok t, lx.next.2) := Prod.ext (by decide +kernel) rfl
    have hline : t.ReadOutside (stripMark nestedSource.toList) := .inr (.inl ⟨rfl, by decide⟩)
    exact ⟨_, lx, t, _, h, hnext, hline, by decide +kernel, hwell, houtside t _ hnext hline⟩
  · have hdedents : (tokenize twoLevels).toOption.map
        (fun tokens => (tokens.map Token.kind).count .dedent) = some 2 := by decide +kernel
    obtain ⟨tokens, htokens, hcount⟩ := Option.map_eq_some_iff.1 hdedents
    have htokenize := toOption_eq_some_iff.1 htokens
    exact ⟨tokens, htokenize, hcount, (blocks_wellFormed twoLevels).2 tokens htokenize⟩

end Quasiquote
