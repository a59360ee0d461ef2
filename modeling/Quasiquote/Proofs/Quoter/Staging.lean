import Quasiquote.Native.Workshop
import Quasiquote.Proofs.Scope.Context

/-!
# Quoters that only stage

A quoter is handed the context over the frame of its site. It may read names and stage bindings; the
frame under the context is not its own to change. This file says what it means that a run keeps to this,
and that all quoters of an installation do if its native ones do.

## Main Definitions

* `Scene.Stages` — a scene into whose context some bindings were staged
* `Quoting.StagesOnly`, `Quoter.StagesOnly` — runs and quoters that do no more than this to a context
* `QuoterKind.natives` — the native quoters to which a quoter hands its bodies

## Main Statements

* `Quoting.StagesOnly.bind` — runs that only stage, one after another
* `Interpretation.stagesOnly` — a quoter only stages if the native quoters behind it do
* `Quoter.stagesOnly_native` — the native quoters of a workshop do
-/

namespace Quasiquote

variable {σ α β : Type}

/-! ### Runs -/

/-- The bindings between two scenes. -/
def Scene.Stages (s t : Scene σ) : Prop := ∃ made, t.context = s.context.stageAll made

theorem Scene.Stages.refl {s t : Scene σ} (h : t.context = s.context) : s.Stages t := ⟨[], h⟩

theorem Scene.Stages.trans {s t u : Scene σ} (hst : s.Stages t) (htu : t.Stages u) : s.Stages u := by
  obtain ⟨first, hfirst⟩ := hst
  obtain ⟨second, hsecond⟩ := htu
  exact ⟨first ++ second, by rw [hsecond, hfirst, Context.stageAll_append]⟩

namespace Quoting

/-- A run that does nothing to its context but stage bindings, whether it fails or not. -/
def StagesOnly (m : Quoting σ α) : Prop := ∀ s : Scene σ, s.Stages (m.run s).2

/-- A run that goes on with the result of another one. -/
theorem run_bind (m : Quoting σ α) (f : α → Quoting σ β) (s : Scene σ) :
    (m >>= f).run s =
      match m.run s with
      | (.ok a, t) => (f a).run t
      | (.error e, t) => (.error e, t) := by
  show (match m.run s with | (r, t) => ExceptT.bindCont f r t) = _
  rcases m.run s with ⟨_ | a, t⟩
  · rfl
  · rfl

/-- A run that looks at its scene first. -/
theorem run_get_bind (f : Scene σ → Quoting σ α) (s : Scene σ) : (get >>= f).run s = (f s).run s :=
  rfl

theorem stagesOnly_pure (a : α) : StagesOnly (pure a : Quoting σ α) := fun _ => .refl rfl

theorem stagesOnly_throw (e : QuoteError) : StagesOnly (throw e : Quoting σ α) := fun _ => .refl rfl

theorem stagesOnly_get : StagesOnly (get : Quoting σ (Scene σ)) := fun _ => .refl rfl

theorem stagesOnly_lookup (name : String) : StagesOnly (lookup name : Quoting σ (Option Ref)) :=
  fun _ => .refl rfl

theorem stagesOnly_alloc (o : Object) : StagesOnly (alloc o : Quoting σ Ref) := fun _ => .refl rfl

theorem stagesOnly_stage (name : String) (value : Ref) :
    StagesOnly (stage name value : Quoting σ Unit) := fun _ => ⟨[(name, value)], rfl⟩

theorem stagesOnly_unsupported (form : Site.Kind) :
    StagesOnly (unsupported form : Quoting σ α) := stagesOnly_throw _

/-- **Runs that only stage, one after another**, only stage. -/
theorem StagesOnly.bind {m : Quoting σ α} {f : α → Quoting σ β} (hm : m.StagesOnly)
    (hf : ∀ a, (f a).StagesOnly) : (m >>= f).StagesOnly := by
  intro s
  have hfirst := hm s
  rw [run_bind]
  rcases hrun : m.run s with ⟨e | a, t⟩
  · rw [hrun] at hfirst
    exact hfirst
  · rw [hrun] at hfirst
    exact hfirst.trans (hf a t)

end Quoting

/-- A quoter whose runs do nothing to their contexts but stage bindings. -/
structure Quoter.StagesOnly (q : Quoter σ) : Prop where
  block : ∀ body column, (q.quoteBlock body column).StagesOnly
  expression : ∀ body column, (q.quoteExpression body column).StagesOnly

/-! ### Host code -/

namespace Host

open Quoting

/-- A computation changes the heap of its scene, and nothing if it fails. -/
theorem run_compute (c : Computation α) (s : Scene σ) :
    (compute c : Quoting σ α).run s =
      match c s.heap with
      | .ok (a, heap) => (.ok a, { s with heap })
      | .error e => (.error e, s) := by
  show ((match c s.heap with
    | .ok (a, heap) => do set { s with heap }; return a
    | .error e => throw e : Quoting σ α).run s) = _
  rcases c s.heap with e | ⟨a, heap⟩
  · rfl
  · rfl

theorem stagesOnly_compute (c : Computation α) : (compute c : Quoting σ α).StagesOnly := by
  intro s
  rw [run_compute]
  split
  · exact .refl rfl
  · exact .refl rfl

theorem stagesOnly_evaluate (e : Expr) : (evaluate e : Quoting σ Ref).StagesOnly :=
  stagesOnly_get.bind fun _ => stagesOnly_compute _

theorem stagesOnly_require (name : String) : (require name : Quoting σ Ref).StagesOnly := by
  refine (stagesOnly_lookup name).bind fun found => ?_
  cases found with
  | none => exact stagesOnly_throw _
  | some r => exact stagesOnly_pure r

theorem stagesOnly_step (s : Stmt) : (step s : Quoting σ Unit).StagesOnly := by
  cases s with
  | assign name value => exact (stagesOnly_evaluate value).bind fun r => stagesOnly_stage name r
  | augAssign name op value =>
    refine (stagesOnly_require name).bind fun current => ?_
    refine (stagesOnly_evaluate value).bind fun operand => ?_
    exact (stagesOnly_compute _).bind fun r => stagesOnly_stage name r
  | expr value => exact (stagesOnly_evaluate value).bind fun _ => stagesOnly_pure ()
  | pass => exact stagesOnly_pure ()

theorem stagesOnly_exec (statements : List Stmt) : (exec statements : Quoting σ Unit).StagesOnly := by
  induction statements with
  | nil => exact stagesOnly_pure ()
  | cons s rest ih => exact (stagesOnly_step s).bind fun _ => ih

theorem stagesOnly_readable (r : Except ParseError α) : (readable r : Quoting σ α).StagesOnly := by
  cases r with
  | error e => exact stagesOnly_throw _
  | ok a => exact stagesOnly_pure a

end Host

namespace Quoter

open Quoting

theorem stagesOnly_host : (host : Quoter σ).StagesOnly where
  block body _ := (Host.stagesOnly_readable (Host.parseStatements body)).bind Host.stagesOnly_exec
  expression body _ :=
    (Host.stagesOnly_readable (Host.parseExpression body)).bind Host.stagesOnly_evaluate

/-! ### Files and probes -/

theorem stagesOnly_readNamed (readText : σ → String → Except IoError String) (name : String) :
    (readNamed readText name).StagesOnly := by
  unfold readNamed
  refine stagesOnly_get.bind fun s => ?_
  dsimp only
  split
  · exact stagesOnly_pure _
  · exact stagesOnly_throw _

theorem StagesOnly.fromFile (readText : σ → String → Except IoError String) {inner : Quoter σ}
    (h : inner.StagesOnly) : (fromFile readText inner).StagesOnly where
  block body column := by
    unfold Quoter.fromFile
    dsimp only
    split
    · exact stagesOnly_throw _
    · exact (stagesOnly_readNamed readText _).bind fun text => h.block text column
  expression _ column := (stagesOnly_readNamed readText _).bind fun text => h.expression text column

theorem stagesOnly_makeEcho (body : String) (column : Nat) :
    (makeEcho body column : Quoting σ Ref).StagesOnly :=
  stagesOnly_get.bind fun _ => (stagesOnly_alloc _).bind fun _ => (stagesOnly_alloc _).bind fun _ =>
    (stagesOnly_alloc _).bind fun _ => (stagesOnly_alloc _).bind fun _ =>
      (stagesOnly_alloc _).bind fun _ => (stagesOnly_alloc _).bind fun _ => stagesOnly_alloc _

theorem stagesOnly_stageAndFail (e : QuoteError) : (stageAndFail e : Quoting σ α).StagesOnly :=
  (stagesOnly_alloc _).bind fun _ => (stagesOnly_stage _ _).bind fun _ => stagesOnly_throw e

theorem stagesOnly_probe (p : Probe) : (probe p : Quoter σ).StagesOnly := by
  cases p with
  | constant value => exact ⟨fun _ _ => stagesOnly_unsupported _, fun _ _ => stagesOnly_pure value⟩
  | recorder =>
    refine ⟨fun _ _ => ?_, fun _ _ => stagesOnly_unsupported _⟩
    exact stagesOnly_get.bind fun _ => (stagesOnly_alloc _).bind fun r => stagesOnly_stage _ r
  | hollow => exact ⟨fun _ _ => stagesOnly_unsupported _, fun _ _ => stagesOnly_unsupported _⟩
  | inert => exact ⟨fun _ _ => stagesOnly_unsupported _, fun _ _ => stagesOnly_unsupported _⟩
  | failing => exact ⟨fun _ _ => stagesOnly_stageAndFail _, fun _ _ => stagesOnly_stageAndFail _⟩
  | echo =>
    refine ⟨fun body column => ?_, fun body column => ?_⟩
    · exact (stagesOnly_makeEcho body column).bind fun r => stagesOnly_stage _ r
    · exact (stagesOnly_makeEcho body column).bind fun r => (stagesOnly_alloc _).bind fun o =>
        (stagesOnly_stage _ o).bind fun _ => stagesOnly_pure r

end Quoter

/-! ### Native code -/

namespace Native

open Quoting

theorem stageAll_context (changed : List (String × Ref)) (c : Context) (t : HandleTable) :
    (stageAll changed c t).1 = c.stageAll changed := by
  induction changed generalizing c t with
  | nil => rfl
  | cons p changed ih => exact ih (c.stage p.1 p.2) _

/-- A loaded body stages the slots that it changes, and nothing if it fails. -/
theorem LoadedQuote.run_context (q : LoadedQuote) (c : Context) (t : HandleTable) :
    ∃ made, (q.run c t).2.1 = c.stageAll made := by
  simp only [LoadedQuote.run]
  split
  · exact ⟨[], rfl⟩
  · exact ⟨_, stageAll_context _ c _⟩

theorem stagesOnly_runLoaded (q : LoadedQuote) : (runLoaded q).StagesOnly := by
  intro s
  obtain ⟨made, hmade⟩ := q.run_context s.context (tableOf s.heap s.context)
  refine ⟨made, Eq.trans ?_ hmade⟩
  rw [runLoaded, run_get_bind]
  rcases q.run s.context (tableOf s.heap s.context) with ⟨_ | r, context, table⟩
  · rfl
  · rfl

theorem stagesOnly_quote (number : Nat) (kind : Site.Kind) (body : String) (column : Nat) :
    (quote number kind body column).StagesOnly := by
  intro s
  rw [quote, run_get_bind]
  cases s.world.quoters[number]? with
  | none => exact stagesOnly_unsupported kind s
  | some config =>
    dsimp only
    rcases s.world.obtain config kind body s.context column with ⟨_ | q, world⟩
    · exact .refl rfl
    · exact .trans (.refl rfl) (stagesOnly_runLoaded q { s with world })

end Native

theorem Quoter.stagesOnly_native (number : Nat) : (Quoter.native number).StagesOnly where
  block body column := (Native.stagesOnly_quote number .block body column).bind fun _ =>
    Quoting.stagesOnly_pure ()
  expression body column := Native.stagesOnly_quote number .expression body column

/-! ### Installations -/

/-- The numbers of the native quoters to which a quoter hands its bodies. -/
def QuoterKind.natives : QuoterKind → List Nat
  | .host => []
  | .fromFile inner => inner.natives
  | .native number => [number]
  | .probe _ => []

/-- **A quoter only stages** if the native quoters behind it do. -/
theorem Interpretation.stagesOnly (i : Interpretation σ) (kind : QuoterKind)
    (h : ∀ n ∈ kind.natives, (i.native n).StagesOnly) : (i.quoter kind).StagesOnly := by
  induction kind with
  | host => exact Quoter.stagesOnly_host
  | fromFile inner ih => exact (ih h).fromFile i.readText
  | native number => exact h number (List.mem_singleton.2 rfl)
  | probe p => exact Quoter.stagesOnly_probe p

end Quasiquote
