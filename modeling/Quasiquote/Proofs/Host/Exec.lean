import Quasiquote.Proofs.Host.Effects

/-!
# Staged and direct execution

The host quoter reads all names through the context of its site and stages what its statements bind; the
frame receives it in the end. This file compares that with running the statements in the frame itself,
and a single block with two blocks one after another.

## Main Definitions

* `Stage.run` — running statements in a frame itself
* `callBoth` — two block sites one after another
* `Alike` — outcomes that the host cannot tell apart

## Main Statements

* `Host.run_exec` — what a run of statements stages
* `binds_callBlock`, `binds_run`, `binds_callBoth` — all of these bind the effects of their statements
* `block_runs_directly` — staged execution and direct execution are alike, and so are one block and two

## Design Notes

A context hides the host's own names unless they are staged, and a frame does not. So the statements here
look no such name up. They may bind them.
-/

namespace Quasiquote

variable {σ : Type}

/-! ### Runs of statements -/

namespace Host

/-- What a run does whose effect is known: it stages the bindings, or fails with the error. -/
def Performs (m : Quoting σ Unit) (effect : (String → Option Ref) → Computation Bindings) : Prop :=
  ∀ s : Scene σ,
    match effect s.context.get? s.heap with
    | .ok (made, heap) => m.run s = (.ok (), { s with heap, context := s.context.stageAll made })
    | .error e => (m.run s).1 = .error e

namespace Performs

variable {m n : Quoting σ Unit} {f g : (String → Option Ref) → Computation Bindings}

theorem run_of_ok (h : Performs m f) {s : Scene σ} {made : Bindings} {heap : Heap}
    (hf : f s.context.get? s.heap = .ok (made, heap)) :
    m.run s = (.ok (), { s with heap, context := s.context.stageAll made }) := by
  have hs := h s
  rw [hf] at hs
  exact hs

theorem run_of_error (h : Performs m f) {s : Scene σ} {e : QuoteError}
    (hf : f s.context.get? s.heap = .error e) : (m.run s).1 = .error e := by
  have hs := h s
  rw [hf] at hs
  exact hs

/-- A run that succeeds has made its bindings. -/
theorem exists_of_run (h : Performs m f) {s t : Scene σ} (hrun : m.run s = (.ok (), t)) :
    ∃ made heap, f s.context.get? s.heap = .ok (made, heap) ∧
      t = { s with heap, context := s.context.stageAll made } := by
  rcases hf : f s.context.get? s.heap with e | ⟨made, heap⟩
  · have hfails := h.run_of_error hf
    rw [hrun] at hfails
    cases hfails
  · refine ⟨made, heap, rfl, ?_⟩
    rw [h.run_of_ok hf] at hrun
    exact (Prod.ext_iff.1 hrun).2.symm

theorem pure : Performs (Pure.pure () : Quoting σ Unit) fun _ => Pure.pure [] := fun _ => rfl

/-- A run that follows another one looks names up among the bindings that the first one made. -/
theorem bind (hm : Performs m f) (hn : Performs n g) :
    Performs (m >>= fun _ => n) fun look => do
      let made ← f look
      let more ← g (overlay look made)
      return made ++ more := by
  intro s
  simp only [run_bind, Quoting.run_bind]
  rcases hf : f s.context.get? s.heap with e | ⟨made, heap⟩
  · have hfirst := hm.run_of_error hf
    rcases hrun : m.run s with ⟨_ | _, t⟩
    · rw [hrun] at hfirst
      exact hfirst
    · rw [hrun] at hfirst
      cases hfirst
  · have hlook : (s.context.stageAll made).get? = overlay s.context.get? made :=
      funext (s.context.get?_stageAll made)
    let t : Scene σ := { s with heap, context := s.context.stageAll made }
    rw [hm.run_of_ok hf]
    rcases hg : g (overlay s.context.get? made) heap with e | ⟨more, heap'⟩
    · have hgt : g t.context.get? t.heap = .error e := hlook ▸ hg
      simp only [hg]
      exact hn.run_of_error hgt
    · have hgt : g t.context.get? t.heap = .ok (more, heap') := hlook ▸ hg
      have hrest := hn.run_of_ok hgt
      rw [← Context.stageAll_append] at hrest
      simp only [hg]
      exact hrest

end Performs

theorem run_evaluate (e : Expr) (s : Scene σ) :
    (evaluate e : Quoting σ Ref).run s =
      match eval s.context.get? e s.heap with
      | .ok (r, heap) => (.ok r, { s with heap })
      | .error e => (.error e, s) := by
  have hget : (get : Quoting σ (Scene σ)).run s = (.ok s, s) := rfl
  rw [evaluate, Quoting.run_bind, hget]
  dsimp only
  rw [run_compute]
  rcases eval s.context.get? e s.heap with e | ⟨r, heap⟩
  · rfl
  · rfl

/-- An expression site of host code is read and evaluated. -/
theorem run_quoteExpression (body : String) (column : Nat) (s : Scene σ) :
    (Quoter.host.quoteExpression body column : Quoting σ Ref).run s =
      match parseExpression body with
      | .ok e => (evaluate e : Quoting σ Ref).run s
      | .error e => (.error (.eval (.malformed e)), s) := by
  show (do evaluate (← readable (parseExpression body)) : Quoting σ Ref).run s = _
  rw [Quoting.run_bind]
  cases parseExpression body with
  | ok e => rfl
  | error e => rfl

theorem run_require (name : String) (s : Scene σ) :
    (require name : Quoting σ Ref).run s =
      match s.context.get? name with
      | some r => (.ok r, s)
      | none => (.error (.unbound name), s) := by
  show (match s.context.get? name with
    | some r => pure r
    | none => throw (.unbound name) : Quoting σ Ref).run s = _
  cases s.context.get? name with
  | none => rfl
  | some r => rfl

theorem performs_step (statement : Stmt) :
    Performs (step statement : Quoting σ Unit) statement.effect := by
  intro s
  cases statement with
  | assign name value =>
    simp only [Stmt.effect, step, run_bind, Quoting.run_bind, run_evaluate]
    rcases eval s.context.get? value s.heap with e | ⟨r, heap⟩
    · rfl
    · rfl
  | augAssign name op value =>
    simp only [Stmt.effect, step, Quoting.run_bind, run_require]
    cases s.context.get? name with
    | none => rfl
    | some current =>
      simp only [run_bind, run_evaluate]
      rcases eval s.context.get? value s.heap with e | ⟨operand, heap⟩
      · rfl
      · dsimp only
        rw [run_compute]
        dsimp only
        rcases binary op current operand heap with e | ⟨r, heap⟩
        · rfl
        · rfl
  | expr value =>
    simp only [Stmt.effect, step, run_bind, Quoting.run_bind, run_evaluate]
    rcases eval s.context.get? value s.heap with e | ⟨r, heap⟩
    · rfl
    · rfl
  | pass => rfl

/-- **What a run of statements stages** is what the statements bind, one after another. -/
theorem run_exec (statements : List Stmt) :
    Performs (exec statements : Quoting σ Unit) fun look => effects look statements := by
  induction statements with
  | nil => exact .pure
  | cons statement rest ih => exact (performs_step statement).bind ih

end Host

/-! ### Outcomes -/

/-- Run statements in a frame itself. -/
def Stage.run (s : Stage σ) (statements : List Host.Stmt) : Except QuoteError Unit × Stage σ :=
  match Host.execIn s.frame statements s.heap with
  | .ok (frame, heap) => (.ok (), { s with heap, frame })
  | .error e => (.error e, s)

/-- Call two block sites one after another, the second one if the first succeeds. -/
def callBoth (quoter : QuoterKind → Quoter σ) (name first second : String) (column column' : Nat)
    (s : Stage σ) : Except QuoteError Unit × Stage σ :=
  match callBlock quoter name first column s with
  | (.ok (), t) => callBlock quoter name second column' t
  | (.error e, t) => (.error e, t)

/-- Outcomes that the host cannot tell apart: the same failure, or two successes after which there are
the same objects and every name means the same one of them. -/
inductive Alike : Except QuoteError Unit × Stage σ → Except QuoteError Unit × Stage σ → Prop
  | failed {e : QuoteError} {t u : Stage σ} : Alike (.error e, t) (.error e, u)
  | succeeded {t u : Stage σ} (heap : t.heap = u.heap) (world : t.world = u.world)
      (names : ∀ n, t.frame.get? n = u.frame.get? n) : Alike (.ok (), t) (.ok (), u)

/-- An outcome in which the bindings of some statements were made, or their failure. -/
inductive Binds (s : Stage σ) :
    Except QuoteError (Bindings × Heap) → Except QuoteError Unit × Stage σ → Prop
  | failed {e : QuoteError} {t : Stage σ} : Binds s (.error e) (.error e, t)
  | succeeded {made : Bindings} {heap : Heap} {t : Stage σ} (objects : t.heap = heap)
      (names : t.frame.get? = Host.overlay s.frame.get? made) (world : t.world = s.world)
      (sound : t.frame.Sound) : Binds s (.ok (made, heap)) (.ok (), t)

/-- Outcomes with the same bindings are alike. -/
theorem Binds.alike {s : Stage σ} {effect : Except QuoteError (Bindings × Heap)}
    {x y : Except QuoteError Unit × Stage σ} (hx : Binds s effect x) (hy : Binds s effect y) :
    Alike x y := by
  cases hx with
  | failed =>
    cases hy with
    | failed => exact .failed
  | succeeded objects names world sound =>
    cases hy with
    | succeeded objects' names' world' sound' =>
      exact .succeeded (objects.trans objects'.symm) (world.trans world'.symm)
        (congrFun (names.trans names'.symm))

/-! ### Three ways to run statements -/

/-- Running statements in the frame itself makes their bindings. -/
theorem binds_run {s : Stage σ} (hsound : s.frame.Sound) (statements : List Host.Stmt) :
    Binds s (Host.effects s.frame.get? statements s.heap) (s.run statements) := by
  rw [Stage.run, Host.execIn_eq hsound, Host.run_bind]
  rcases Host.effects s.frame.get? statements s.heap with e | ⟨made, heap⟩
  · exact .failed
  · exact .succeeded rfl (funext (hsound.get?_setAll made)) rfl (hsound.setAll made)

/-- Statements that look up none of the host's own names. -/
def LooksUpNoDunder (statements : List Host.Stmt) : Prop :=
  ∀ s ∈ statements, ∀ n ∈ s.reads, isDunder n = false

section Blocks

variable (i : Interpretation σ) {s : Stage σ} {name : String} {r : Ref}

theorem resolve_host (hname : s.frame.get? name = some r) (hquoter : s.heap.get r = .quoter .host)
    (form : Site.Kind) : resolve i.quoter s name form = .ok .host := by
  rw [resolve, hname]
  dsimp only
  rw [hquoter]
  cases form <;> rfl

/-- A block of host code makes the bindings of its statements. -/
theorem binds_callBlock (hsound : s.frame.Sound) (hname : s.frame.get? name = some r)
    (hquoter : s.heap.get r = .quoter .host) {body : String} {statements : List Host.Stmt}
    (hparse : Host.parseStatements body = .ok statements) (hplain : LooksUpNoDunder statements)
    (column : Nat) :
    Binds s (Host.effects s.frame.get? statements s.heap)
      (callBlock i.quoter name body column s) := by
  have hrun : (Quoter.host.quoteBlock body column : Quoting σ Unit) = Host.exec statements := by
    show (do Host.exec (← Host.readable (Host.parseStatements body)) : Quoting σ Unit) = _
    rw [hparse]
    rfl
  -- names that are not the host's own mean in the context what they mean in the frame
  have hlook (n : String) (hn : isDunder n = false) :
      (s.scene name).context.get? n = s.frame.get? n := by
    show (Context.ofFrame s.frame (some name)).get? n = _
    rw [Context.get?, hn]
    exact hsound.get?_fastToLocals n
  have heffects : Host.effects (s.scene name).context.get? statements =
      Host.effects s.frame.get? statements := Host.effects_congr hlook hplain
  have hexec : Host.Performs (Host.exec statements : Quoting σ Unit) _ := Host.run_exec statements
  rw [callBlock, call, resolve_host i hname hquoter]
  dsimp only
  rw [hrun]
  rcases heffect : Host.effects s.frame.get? statements s.heap with e | ⟨made, heap⟩
  · have hfails := hexec.run_of_error ((congrFun heffects s.heap).trans heffect)
    rcases hend : (Host.exec statements : Quoting σ Unit).run (s.scene name) with ⟨_ | _, scene⟩
    · rw [hend] at hfails
      cases hfails
      exact .failed
    · rw [hend] at hfails
      cases hfails
  · rw [hexec.run_of_ok ((congrFun heffects s.heap).trans heffect)]
    obtain ⟨htook, hafter⟩ := Context.took_commit (some name) made hsound
    exact .succeeded rfl (funext htook.names) rfl hafter

/-- Two blocks make the bindings of all their statements, as long as the name that leads to the quoter
is not bound in between. -/
theorem binds_callBoth (hsound : s.frame.Sound) (hname : s.frame.get? name = some r)
    (hquoter : s.heap.get r = .quoter .host) {first second : String} {a b : List Host.Stmt}
    (ha : Host.parseStatements first = .ok a) (hb : Host.parseStatements second = .ok b)
    (hplain : LooksUpNoDunder (a ++ b)) (hkept : name ∉ a.flatMap Host.Stmt.binds)
    (column column' : Nat) :
    Binds s (Host.effects s.frame.get? (a ++ b) s.heap)
      (callBoth i.quoter name first second column column' s) := by
  obtain ⟨hplainA, hplainB⟩ := List.forall_mem_append.1 hplain
  have hfirst := binds_callBlock i hsound hname hquoter ha hplainA column
  rw [callBoth, Host.effects_append, Host.run_bind]
  rcases heffect : Host.effects s.frame.get? a s.heap with e | ⟨made, heap⟩
  · rw [heffect] at hfirst
    generalize callBlock i.quoter name first column s = outcome at hfirst ⊢
    cases hfirst with
    | failed => exact .failed
  · rw [heffect] at hfirst
    generalize callBlock i.quoter name first column s = outcome at hfirst ⊢
    cases hfirst with
    | @succeeded _ _ t objects names world sound =>
      -- the name still leads to the quoter, which is where it was
      have hname' : t.frame.get? name = some r := by
        rw [names, Host.overlay, Table.last?_eq_none (Host.keys_effects heffect ▸ hkept)]
        exact hname
      have hquoter' : t.heap.get r = .quoter .host :=
        objects ▸ (Host.grows_effects _ a _ _ _ heffect).quoter hquoter
      have hsecond := binds_callBlock i sound hname' hquoter' hb hplainB column'
      rw [names, objects] at hsecond
      dsimp only
      rw [Host.run_bind]
      generalize callBlock i.quoter name second column' t = outcome at hsecond ⊢
      rcases hmore : Host.effects (Host.overlay s.frame.get? made) b heap with e | ⟨more, heap'⟩
      · rw [hmore] at hsecond
        cases hsecond with
        | failed => exact .failed
      · rw [hmore] at hsecond
        cases hsecond with
        | succeeded objects' names' world' sound' =>
          refine .succeeded objects' ?_ (world'.trans world) sound'
          rw [names', names, Host.overlay_overlay]

end Blocks

/-- **Staged execution is direct execution.** In a sound frame in which a name leads to the host quoter,
a block of statements that look up none of the host's own names does what running them in the frame
itself does. And a single block does what two blocks do that share its statements, if the first one does
not bind the name of the quoter. -/
theorem block_runs_directly (i : Interpretation σ) {s : Stage σ} (hsound : s.frame.Sound)
    {name : String} {r : Ref} (hname : s.frame.get? name = some r)
    (hquoter : s.heap.get r = .quoter .host) :
    (∀ body statements column, Host.parseStatements body = .ok statements →
      LooksUpNoDunder statements →
      Alike (callBlock i.quoter name body column s) (s.run statements)) ∧
    ∀ first second both a b column column' column'', Host.parseStatements first = .ok a →
      Host.parseStatements second = .ok b → Host.parseStatements both = .ok (a ++ b) →
      LooksUpNoDunder (a ++ b) → name ∉ a.flatMap Host.Stmt.binds →
      Alike (callBlock i.quoter name both column s)
        (callBoth i.quoter name first second column' column'' s) := by
  refine ⟨?_, ?_⟩
  · intro body statements column hparse hplain
    exact (binds_callBlock i hsound hname hquoter hparse hplain column).alike
      (binds_run hsound statements)
  · intro first second both a b column column' column'' ha hb hboth hplain hkept
    exact (binds_callBlock i hsound hname hquoter hboth hplain column).alike
      (binds_callBoth i hsound hname hquoter ha hb hplain hkept column' column'')

/-- A function in which a name leads to the host quoter. Two of its names are not bound, and one of these
has no slot. -/
def hostStage : Stage Unit where
  heap := ⟨#[.quoter .host, .int 7]⟩
  frame := (((Frame.ofModule "m" "m.py" 1).ofFunction ["py", "x", "y"]).set "py" ⟨0⟩).set "y" ⟨1⟩
  world := ()

/-- Two assignments, of which the second one reads what the first one binds: in one block, in two, and in
the frame itself. -/
theorem hostStage_runs_directly :
    let i : Interpretation Unit := ⟨fun _ _ => .error .notFound, fun _ => .host⟩
    let statements := [Host.Stmt.assign "x" (.name "y"), .assign "z" (.name "x")]
    Alike (callBlock i.quoter "py" "x = y;z = x" 0 hostStage) (hostStage.run statements) ∧
      Alike (callBlock i.quoter "py" "x = y;z = x" 0 hostStage)
        (callBoth i.quoter "py" "x = y" "z = x" 0 0 hostStage) ∧
      (hostStage.run statements).2.frame.get? "z" = some ⟨1⟩ := by
  intro i statements
  have hfirst : Host.parseStatements "x = y" = .ok [.assign "x" (.name "y")] := by
    with_unfolding_all rfl
  have hsecond : Host.parseStatements "z = x" = .ok [.assign "z" (.name "x")] := by
    with_unfolding_all rfl
  have hboth : Host.parseStatements "x = y;z = x" = .ok statements := by
    with_unfolding_all rfl
  have hnames : ["py", "x", "y"].Nodup := by decide
  have hsound : hostStage.frame.Sound :=
    ((Frame.sound_ofFunction (.ofModule "m" "m.py" 1) hnames).set "py" ⟨0⟩).set "y" ⟨1⟩
  have hname : hostStage.frame.get? "py" = some ⟨0⟩ := rfl
  have hplain : LooksUpNoDunder statements := by
    unfold LooksUpNoDunder
    decide
  obtain ⟨hdirect, hsplit⟩ := block_runs_directly i hsound hname rfl
  exact ⟨hdirect _ _ 0 hboth hplain,
    hsplit _ _ _ _ _ 0 0 0 hfirst hsecond hboth hplain (by decide), rfl⟩

end Quasiquote
