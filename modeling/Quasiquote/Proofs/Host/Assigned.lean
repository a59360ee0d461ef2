import Quasiquote.Proofs.Host.Body
import Quasiquote.Proofs.Host.Exec
import Quasiquote.Proofs.Host.RoundTrip

/-!
# Assigned names

A name that statements assign can be read as an expression in the context where they were run, and what is
read is the object that was assigned to it last. The words `True`, `False` and `None` are no keywords for a
statement, which assigns to them, and no names for an expression, which reads constants.

## Main Definitions

* `Host.Stmt.Assigns` — a statement assigns an object to a name
* `Host.LastAssigned` — the object that a run of statements assigns to a name last
* `Host.IsTarget` — what may stand in front of an assignment
* `Host.constant?` — the constant that a word is in an expression

## Main Statements

* `Host.exists_lastAssigned` — a run leaves each name that it binds with the object last assigned to it
* `Host.isTarget_of_parseStatements` — the statements that are read assign to nothing but targets
* `Host.parseExpression_target` — what a target is as an expression
* `Host.assigned_reads_back` — an assigned name reads back, exactly if it is no constant
-/

namespace Quasiquote.Host

variable {σ : Type}

/-! ### The object last assigned to a name -/

section Runs

variable {s t u : Scene σ} {name : String} {r : Ref} {statement : Stmt} {statements rest : List Stmt}

/-- **A statement assigns an object to a name,** where it is run. -/
inductive Stmt.Assigns (s : Scene σ) (name : String) (r : Ref) : Stmt → Prop
  | assign {value : Expr} {u : Scene σ} : (evaluate value : Quoting σ Ref).run s = (.ok r, u) →
      Assigns s name r (.assign name value)
  | augAssign {op : BinaryOp} {value : Expr} {current operand : Ref} {u : Scene σ} {heap : Heap} :
      s.context.get? name = some current →
      (evaluate value : Quoting σ Ref).run s = (.ok operand, u) →
      binary op current operand u.heap = .ok (r, heap) → Assigns s name r (.augAssign name op value)

/-- **The object that a run of statements assigns to a name last.** -/
inductive LastAssigned (name : String) (r : Ref) : Scene σ → List Stmt → Prop
  | here {s : Scene σ} {statement : Stmt} {rest : List Stmt} : statement.Assigns s name r →
      name ∉ rest.flatMap Stmt.binds → LastAssigned name r s (statement :: rest)
  | later {s u : Scene σ} {statement : Stmt} {rest : List Stmt} :
      (step statement : Quoting σ Unit).run s = (.ok (), u) → LastAssigned name r u rest →
      LastAssigned name r s (statement :: rest)

/-- A statement that binds a name assigns an object to it, which the name means from then on. -/
theorem exists_assigns (hrun : (step statement : Quoting σ Unit).run s = (.ok (), t))
    (hname : name ∈ statement.binds) :
    ∃ r, statement.Assigns s name r ∧ t.context.get? name = some r := by
  have hstaged (made : Bindings) (r : Ref) (hmade : made = [(name, r)]) :
      (s.context.stageAll made).get? name = some r := by
    rw [Context.get?_stageAll, hmade, Table.last?_cons]
    simp
  obtain ⟨made, heap, heffect, rfl⟩ := (performs_step statement).exists_of_run hrun
  cases statement with
  | assign target value =>
    obtain rfl : name = target := by simpa [Stmt.binds] using hname
    obtain ⟨r, k, heval, hmade⟩ := bind_eq_ok.1 heffect
    cases hmade
    refine ⟨r, .assign (u := { s with heap }) ?_, hstaged _ r rfl⟩
    rw [run_evaluate, heval]
  | augAssign target op value =>
    obtain rfl : name = target := by simpa [Stmt.binds] using hname
    simp only [Stmt.effect] at heffect
    cases hcurrent : s.context.get? name with
    | none =>
      rw [hcurrent] at heffect
      cases heffect
    | some current =>
      rw [hcurrent] at heffect
      obtain ⟨operand, k, heval, hrest⟩ := bind_eq_ok.1 heffect
      obtain ⟨r, k', hbinary, hmade⟩ := bind_eq_ok.1 hrest
      cases hmade
      refine ⟨r, .augAssign (u := { s with heap := k }) hcurrent ?_ hbinary, hstaged _ r rfl⟩
      rw [run_evaluate, heval]
  | expr value => simp [Stmt.binds] at hname
  | pass => simp [Stmt.binds] at hname

/-- A run leaves the names that it does not bind as they are. -/
theorem get?_of_notMem_binds (hrun : (exec statements : Quoting σ Unit).run s = (.ok (), t))
    (hname : name ∉ statements.flatMap Stmt.binds) : t.context.get? name = s.context.get? name := by
  obtain ⟨made, heap, heffects, rfl⟩ := (run_exec statements).exists_of_run hrun
  rw [Context.get?_stageAll, Table.last?_eq_none (keys_effects heffects ▸ hname)]
  rfl

theorem run_exec_cons (hrun : (exec (statement :: rest) : Quoting σ Unit).run s = (.ok (), t)) :
    ∃ u, (step statement : Quoting σ Unit).run s = (.ok (), u) ∧
      (exec rest : Quoting σ Unit).run u = (.ok (), t) := by
  rw [exec, Quoting.run_bind] at hrun
  rcases hstep : (step statement : Quoting σ Unit).run s with ⟨_ | _, u⟩
  · rw [hstep] at hrun
    cases hrun
  · rw [hstep] at hrun
    exact ⟨u, rfl, hrun⟩

/-- **A run leaves each name that it binds with the object last assigned to it.** -/
theorem exists_lastAssigned (hrun : (exec statements : Quoting σ Unit).run s = (.ok (), t))
    (hname : name ∈ statements.flatMap Stmt.binds) :
    ∃ r, LastAssigned name r s statements ∧ t.context.get? name = some r := by
  induction statements generalizing s with
  | nil => simp at hname
  | cons statement rest ih =>
    obtain ⟨u, hstep, hrest⟩ := run_exec_cons hrun
    by_cases hlater : name ∈ rest.flatMap Stmt.binds
    · obtain ⟨r, hassigned, hget⟩ := ih hrest hlater
      exact ⟨r, .later hstep hassigned, hget⟩
    · rw [List.flatMap_cons, List.mem_append] at hname
      obtain ⟨r, hassigns, hget⟩ := exists_assigns hstep (hname.resolve_right hlater)
      exact ⟨r, .here hassigns hlater, (get?_of_notMem_binds hrest hlater).trans hget⟩

end Runs

/-! ### What may stand in front of an assignment -/

/-- **What may stand in front of an assignment:** an identifier that is no keyword. -/
structure IsTarget (name : String) : Prop where
  identifier : Scan.isIdentifier name.toList = true
  keyword : isKeyword name = false

namespace Parser

variable {ts mid rest : List Token} {n : Nat} {names more : List String}

/-- What a rule for statements does with the tokens ahead: it leaves the last ones of them, and the names
that its statements bind are among them. -/
structure Targets (ts rest : List Token) (names : List String) : Prop where
  suffix : rest <:+ ts
  target : ∀ name ∈ names, isKeyword name = false ∧ ∃ t ∈ ts, t.spelling = word name

theorem Targets.of_suffix (h : rest <:+ ts) : Targets ts rest [] := ⟨h, List.forall_mem_nil _⟩

theorem Targets.trans (h : Targets ts mid names) (h' : Targets mid rest more) :
    Targets ts rest (names ++ more) where
  suffix := h'.suffix.trans h.suffix
  target := List.forall_mem_append.2 ⟨h.target, fun name hname =>
    ⟨(h'.target name hname).1, (h'.target name hname).2.imp fun _ ht => ⟨h.suffix.mem ht.1, ht.2⟩⟩⟩

theorem Targets.tail (h : Targets ts.tail rest names) : Targets ts rest names :=
  (Targets.of_suffix ts.tail_suffix).trans h

theorem targets_expr {e : Expr} (h : (expr n).run ts = .ok (e, rest)) : Targets ts rest [] := by
  obtain ⟨used, rfl, -⟩ := (sound n).expr h
  exact .of_suffix (List.suffix_append used rest)

/-- A statement that assigns begins with a name that is no keyword. -/
theorem targets_statement {s : Stmt} (h : (statement n).run ts = .ok (s, rest)) :
    Targets ts rest s.binds := by
  have hexpr (h : ((expr n) >>= fun e => (pure (.expr e) : Rule Stmt)).run ts = .ok (s, rest)) :
      Targets ts rest s.binds := by
    obtain ⟨e, mid, he, hend⟩ := run_bind_eq_ok_iff.1 h
    obtain ⟨rfl, rfl⟩ := run_pure_eq_ok hend
    exact targets_expr he
  rw [statement, run_bind_of_ok (run_peek ts), run_bind_of_ok (run_peekSecond ts)] at h
  split at h
  · rw [run_bind_of_ok (run_advance ts)] at h
    obtain ⟨rfl, rfl⟩ := run_pure_eq_ok h
    exact .of_suffix ts.tail_suffix
  split at h
  · next hname =>
    -- the target is the first token, and the value stands behind the second one
    obtain ⟨first, later, rfl⟩ : ∃ first later, ts = first :: later := by
      cases ts with
      | nil => exact absurd hname.1 (by decide)
      | cons first later => exact ⟨first, later, rfl⟩
    rw [List.headD_cons] at hname h
    have hassigned {make : Expr → Stmt} (hbinds : ∀ e, (make e).binds = [first.text])
        (h : (advance >>= fun _ => advance >>= fun _ => (expr n) >>= fun e =>
          (pure (make e) : Rule Stmt)).run (first :: later) = .ok (s, rest)) :
        Targets (first :: later) rest s.binds := by
      rw [run_bind_of_ok (run_advance_cons first later), run_bind_of_ok (run_advance later)] at h
      obtain ⟨e, mid, he, hend⟩ := run_bind_eq_ok_iff.1 h
      obtain ⟨rfl, rfl⟩ := run_pure_eq_ok hend
      rw [hbinds]
      refine ⟨(targets_expr he).tail.suffix.trans (List.suffix_cons first later), ?_⟩
      rw [List.forall_mem_singleton]
      exact ⟨by simpa using hname.2.1, first, List.mem_cons_self, Prod.ext hname.1 rfl⟩
    split at h
    · exact hassigned (fun _ => rfl) h
    · split at h
      · exact hassigned (fun _ => rfl) h
      · exact hexpr h
  · exact hexpr h

theorem targets_moreStatements {line : List Stmt} (h : (moreStatements n).run ts = .ok (line, rest)) :
    Targets ts rest (line.flatMap Stmt.binds) := by
  induction n generalizing ts line with
  | zero =>
    obtain ⟨rfl, rfl⟩ := run_pure_eq_ok h
    exact .of_suffix List.suffix_rfl
  | succ n ih =>
    rcases run_ifOperator_eq_ok h with ⟨semicolon, mid, rfl, -, h⟩ | h
    · rw [run_bind_of_ok (run_peek mid)] at h
      split at h
      · obtain ⟨rfl, rfl⟩ := run_pure_eq_ok h
        exact .of_suffix (List.suffix_cons semicolon mid)
      · obtain ⟨s, behind, hs, h⟩ := run_bind_eq_ok_iff.1 h
        obtain ⟨later, last, hlater, h⟩ := run_bind_eq_ok_iff.1 h
        obtain ⟨rfl, rfl⟩ := run_pure_eq_ok h
        exact Targets.tail ((targets_statement hs).trans (ih hlater))
    · obtain ⟨rfl, rfl⟩ := run_pure_eq_ok h
      exact .of_suffix List.suffix_rfl

theorem targets_statementLine {line : List Stmt} (h : (statementLine n).run ts = .ok (line, rest)) :
    Targets ts rest (line.flatMap Stmt.binds) := by
  obtain ⟨s, mid, hs, h⟩ := run_bind_eq_ok_iff.1 h
  obtain ⟨later, last, hlater, h⟩ := run_bind_eq_ok_iff.1 h
  rw [run_bind_of_ok (run_peek last)] at h
  split at h
  · obtain ⟨rfl, rfl⟩ := run_pure_eq_ok h
    exact (targets_statement hs).trans (targets_moreStatements hlater)
  · exact absurd h stopHere_ne_ok

theorem targets_statements {stmts : List Stmt} (h : (statements n).run ts = .ok (stmts, rest)) :
    Targets ts rest (stmts.flatMap Stmt.binds) := by
  induction n generalizing ts stmts with
  | zero =>
    obtain ⟨rfl, rfl⟩ := run_pure_eq_ok h
    exact .of_suffix List.suffix_rfl
  | succ n ih =>
    rw [statements, run_bind_of_ok (run_peek ts)] at h
    split at h
    · obtain ⟨rfl, rfl⟩ := run_pure_eq_ok h
      exact .of_suffix List.suffix_rfl
    · rw [run_bind_of_ok (run_advance ts)] at h
      exact (ih h).tail
    · rw [run_bind_of_ok (run_advance ts)] at h
      exact (ih h).tail
    · exact absurd h stop_ne_ok
    · obtain ⟨line, mid, hline, h⟩ := run_bind_eq_ok_iff.1 h
      obtain ⟨later, last, hlater, h⟩ := run_bind_eq_ok_iff.1 h
      obtain ⟨rfl, rfl⟩ := run_pure_eq_ok h
      rw [List.flatMap_append]
      exact (targets_statementLine hline).trans (ih hlater)

theorem targets_block {stmts : List Stmt} (h : (block n).run ts = .ok (stmts, rest)) :
    Targets ts rest (stmts.flatMap Stmt.binds) := by
  obtain ⟨found, mid, hfound, hstatements⟩ := run_bind_eq_ok_iff.1 h
  rcases accept_eq_ok hfound with ⟨-, -, rfl⟩ | ⟨-, rfl⟩
  · exact (targets_statements hstatements).tail
  · exact targets_statements hstatements

end Parser

/-- **The statements that are read assign to nothing but targets.** -/
theorem isTarget_of_parseStatements {body : String} {statements : List Stmt}
    (h : parseStatements body = .ok statements) :
    ∀ name ∈ statements.flatMap Stmt.binds, IsTarget name := by
  obtain ⟨tokens, rest, htokens, hrun⟩ := Parser.parse_eq_ok h
  intro name hname
  obtain ⟨hkeyword, t, ht, hspelling⟩ := (Parser.targets_block hrun).target name hname
  obtain ⟨hkind, rfl⟩ := Prod.ext_iff.1 hspelling
  have hall : t ∈ (Lexer.ofSource body).run.1 := by
    rw [Lexer.run_of_tokenize htokens]
    exact List.mem_of_mem_filter ht
  exact ⟨Lexer.isIdentifier_of_mem_run hall hkind, hkeyword⟩

/-! ### What may stand in front of an assignment, as an expression -/

/-- The constant that a word is in an expression, if it is one. -/
def constant? : String → Option Constant
  | "True" => some (.bool true)
  | "False" => some (.bool false)
  | "None" => some .none
  | _ => none

/-- **A target as an expression** is a constant or a name. -/
theorem parseExpression_target {name : String} (h : IsTarget name) :
    parseExpression name = .ok ((constant? name).elim (.name name) .const) := by
  have hatom {e : Expr} (hatom : Forms .atom [word name] e) : parseExpression name = .ok e := by
    have hplain : ∀ w ∈ [word name], w.1 = .operator → w.2 ∈ expressionSigns := by simp
    refine parseExpression_of_forms (hatom.of_rank_le (by decide) (by decide) (by decide)) ?_ hplain (.last _)
    exact List.forall_mem_singleton.2 (Scan.legible_name h.identifier)
  unfold constant?
  split
  · exact hatom .true
  · exact hatom .false
  · exact hatom .none
  · next htrue hfalse hnone =>
    refine hatom (.name ?_ h.keyword)
    simp only [List.mem_cons, List.not_mem_nil, or_false, not_or]
    exact ⟨htrue, hfalse, hnone⟩

/-- **An assigned name reads back, exactly if it is no constant.** Behind a run of statements that were
read, the name by itself is evaluated to the object that they assigned to it last. One of the three words
that are constants is assigned to as well, and is evaluated to a new object. -/
theorem assigned_reads_back {body : String} {statements : List Stmt}
    (hparse : parseStatements body = .ok statements) {s t : Scene σ}
    (hrun : (exec statements : Quoting σ Unit).run s = (.ok (), t)) {name : String}
    (hname : name ∈ statements.flatMap Stmt.binds) (column : Nat) :
    ∃ r, LastAssigned name r s statements ∧
      ((Quoter.host.quoteExpression name column).run t = (.ok r, t) ↔ constant? name = none) ∧
      ∀ value, constant? name = some value →
        (Quoter.host.quoteExpression name column).run t =
          (.ok (t.heap.alloc value.object).1, { t with heap := (t.heap.alloc value.object).2 }) := by
  obtain ⟨r, hassigned, hget⟩ := exists_lastAssigned hrun hname
  have hread := parseExpression_target (isTarget_of_parseStatements hparse name hname)
  refine ⟨r, hassigned, ?_⟩
  cases hconstant : constant? name with
  | none =>
    have heval : eval t.context.get? (.name name) t.heap = .ok (r, t.heap) := by
      rw [eval, hget]
      rfl
    rw [hconstant] at hread
    refine ⟨iff_of_true ?_ rfl, nofun⟩
    rw [run_quoteExpression, hread]
    dsimp only [Option.elim]
    rw [run_evaluate, heval]
  | some value =>
    have hnew : (Quoter.host.quoteExpression name column).run t =
        (.ok (t.heap.alloc value.object).1, { t with heap := (t.heap.alloc value.object).2 }) := by
      rw [hconstant] at hread
      rw [run_quoteExpression, hread]
      dsimp only [Option.elim]
      rw [run_evaluate]
      rfl
    refine ⟨iff_of_false (fun hsame => ?_) nofun, ?_⟩
    · -- the heap is not what it was
      rw [hnew] at hsame
      have hsize := congrArg (fun outcome => outcome.2.heap.size) hsame
      simp at hsize
    · rintro _ ⟨⟩
      exact hnew

/-- A block that assigns to a name and to a constant. -/
def hidingBlock : List Stmt := [.assign "x" (.const (.int 7)), .assign "True" (.name "x")]

theorem parseStatements_hidingBlock : parseStatements "x = 7; True = x" = .ok hidingBlock := by
  with_unfolding_all rfl

/-- A scene in which nothing is bound. -/
def bareScene : Scene Unit := { heap := .empty, context := default, world := () }

/-- Behind the block, the name reads back, and the constant does not. -/
theorem hidingBlock_hides :
    ∃ t, (exec hidingBlock).run bareScene = (.ok (), t) ∧
      (∃ r, LastAssigned "x" r bareScene hidingBlock ∧
        (Quoter.host.quoteExpression "x" 0).run t = (.ok r, t)) ∧
      ∃ r, LastAssigned "True" r bareScene hidingBlock ∧
        (Quoter.host.quoteExpression "True" 0).run t ≠ (.ok r, t) := by
  let t : Scene Unit := ((exec hidingBlock).run bareScene).2
  have hrun : (exec hidingBlock).run bareScene = (.ok (), t) := rfl
  refine ⟨t, hrun, ?_, ?_⟩
  · obtain ⟨r, hassigned, hback, -⟩ :=
      assigned_reads_back parseStatements_hidingBlock hrun (show "x" ∈ _ by decide) 0
    exact ⟨r, hassigned, hback.2 rfl⟩
  · obtain ⟨r, hassigned, hback, -⟩ :=
      assigned_reads_back parseStatements_hidingBlock hrun (show "True" ∈ _ by decide) 0
    exact ⟨r, hassigned, fun hsame => by cases hback.1 hsame⟩

end Quasiquote.Host
