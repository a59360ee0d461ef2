import Quasiquote.Proofs.Quoter.Staging
import Quasiquote.Quoter.Dispatch

/-!
# All or nothing

A call of a site opens a context over the frame, runs the quoter against it, and commits what was staged
if the run succeeds. Opening and committing both move entries between the slots of a frame and the
mapping beside them. This file says that none of this can be seen: a call that fails changes no name, and
one that succeeds changes the staged names and no other.

## Main Definitions

* `Frame.Unchanged`, `Frame.Took` — a frame after a call that failed, and after one that succeeded
* `AllOrNothing` — what a call may do to its frame
* `Stage.Driven` — the frames that the host makes and drives through assignments and calls

## Main Statements

* `call_all_or_nothing` — a single call
* `dispatch_all_or_nothing` — both forms of calls, in every frame that the host can have driven there

## Design Notes

The mapping of a frame may be out of date when a call starts, so the frame of a failed call need not be
the frame before it. What stays is the meaning of every name. The invariant behind this is `Frame.Sound`,
which every step of `Stage.Driven` keeps.
-/

namespace Quasiquote

variable {σ α : Type}

/-! ### What a call does to its frame -/

namespace Frame

/-- A frame in which every name means what it meant, and whose globals are the same. -/
structure Unchanged (f g : Frame) : Prop where
  names : ∀ n, g.get? n = f.get? n
  globals : g.globals = f.globals

/-- A frame that took over bindings: each of their names has the last value that it was given, all
others mean what they meant, and a function has left the globals alone. -/
structure Took (f : Frame) (made : Bindings) (g : Frame) : Prop where
  names : ∀ n, g.get? n = (Table.last? made n).or (f.get? n)
  globals : f.moduleLevel = false → g.globals = f.globals

variable {f : Frame}

theorem Sound.unchanged_fastToLocals (h : f.Sound) : f.Unchanged f.fastToLocals where
  names := h.get?_fastToLocals
  globals := by rw [fastToLocals_eq]

/-- A frame that was brought up to date and then received bindings took them over. -/
theorem Sound.took_receive (h : f.Sound) (made : Bindings) :
    f.Took made (f.fastToLocals.receive made) where
  names n := by
    rw [(mirrored_fastToLocals h.slots).get?_receive h.fastToLocals, h.get?_fastToLocals]
  globals hlevel := by
    have hopened : f.fastToLocals.moduleLevel = false := by
      rw [fastToLocals_eq]
      exact hlevel
    rw [globals_receive hopened, fastToLocals_eq]

/-- What counts of bindings is the last value of each name. -/
theorem Took.congr {made other : Bindings} {g : Frame} (h : f.Took made g)
    (heq : ∀ n, Table.last? made n = Table.last? other n) : f.Took other g :=
  ⟨fun n => heq n ▸ h.names n, h.globals⟩

end Frame

namespace Context

variable {f : Frame} (quoterName : Option String) (made : Bindings)

/-- The frame under a context has only been brought up to date. -/
theorem frame_stageAll_ofFrame : ((ofFrame f quoterName).stageAll made).frame = f.fastToLocals := by
  rw [stageAll_eq]
  rfl

/-- The bindings that are staged in the end have the last value of each name. -/
theorem last?_pending_stageAll_ofFrame (n : String) :
    Table.last? ((ofFrame f quoterName).stageAll made).pending n = Table.last? made n := by
  have hempty : (Table.keys ([] : Bindings)).Nodup := List.nodup_nil
  have hnodup := Table.nodup_insertAll hempty made
  rw [stageAll_eq]
  show Table.last? (Table.insertAll [] made) n = _
  rw [Table.last?_of_nodup hnodup, Table.get?_insertAll]
  exact Option.or_none

/-- **A committed context** has handed what was staged to the frame under it. -/
theorem took_commit (h : f.Sound) :
    f.Took made ((ofFrame f quoterName).stageAll made).commit.frame ∧
      ((ofFrame f quoterName).stageAll made).commit.frame.Sound := by
  have hlast := last?_pending_stageAll_ofFrame (f := f) quoterName made
  rcases ((ofFrame f quoterName).stageAll made).commit_cases with ⟨hnil, heq⟩ | heq
  · -- nothing was staged, so no name has a last value
    rw [heq, frame_stageAll_ofFrame]
    refine ⟨⟨fun n => ?_, fun _ => h.unchanged_fastToLocals.globals⟩, h.fastToLocals⟩
    rw [← hlast n, hnil]
    exact h.get?_fastToLocals n
  · rw [heq]
    dsimp only
    rw [frame_stageAll_ofFrame]
    exact ⟨(h.took_receive _).congr hlast,
      (Frame.mirrored_fastToLocals h.slots).sound_receive h.fastToLocals _⟩

end Context

/-! ### Calls -/

section Calls

variable (quoter : QuoterKind → Quoter σ) (form : Site.Kind) (method : Quoter σ → Quoting σ α)
  (name : String) (s : Stage σ)

/-- What a call may do to its frame. If it fails, nothing. If it succeeds, its quoter was found and
ran, and the frame took over what the run staged. -/
inductive AllOrNothing : Except QuoteError α × Stage σ → Prop
  | nothing {e : QuoteError} {after : Stage σ} (unchanged : s.frame.Unchanged after.frame)
      (sound : after.frame.Sound) : AllOrNothing (.error e, after)
  | all {a : α} {after : Stage σ} {q : Quoter σ} {scene : Scene σ} {made : Bindings}
      (found : resolve quoter s name form = .ok q)
      (ran : (method q).run (s.scene name) = (.ok a, scene))
      (staged : scene.context = (s.scene name).context.stageAll made)
      (took : s.frame.Took made after.frame)
      (sound : after.frame.Sound) : AllOrNothing (.ok a, after)

/-- What a name leads to is a quoter of some kind. -/
theorem resolve_eq_ok {q : Quoter σ} (h : resolve quoter s name form = .ok q) :
    ∃ kind, q = quoter kind := by
  unfold resolve at h
  split at h
  · cases h
  · dsimp only at h
    split at h
    · cases h
    · next kind _ =>
      split at h
      · exact ⟨kind, (Except.ok.inj h).symm⟩
      · cases h

/-- A call finds no quoter, or the quoter that it finds fails or succeeds. -/
theorem call_cases :
    (∃ e, resolve quoter s name form = .error e ∧ call quoter form method name s = (.error e, s)) ∨
    (∃ q e scene, resolve quoter s name form = .ok q ∧
      (method q).run (s.scene name) = (.error e, scene) ∧
      call quoter form method name s = (.error e, .ofScene scene)) ∨
    (∃ q a scene, resolve quoter s name form = .ok q ∧
      (method q).run (s.scene name) = (.ok a, scene) ∧
      call quoter form method name s = (.ok a, .ofCommitted scene)) := by
  unfold call
  cases hresolve : resolve quoter s name form with
  | error e => exact .inl ⟨e, rfl, rfl⟩
  | ok q =>
    dsimp only
    rcases hrun : (method q).run (s.scene name) with ⟨e | a, scene⟩
    · exact .inr (.inl ⟨q, e, scene, rfl, hrun, rfl⟩)
    · exact .inr (.inr ⟨q, a, scene, rfl, hrun, rfl⟩)

/-- **All or nothing.** A call of a quoter that only stages changes what was staged if it succeeds, and
nothing if it fails. -/
theorem call_all_or_nothing (h : s.frame.Sound)
    (hmethod : ∀ q, resolve quoter s name form = .ok q → (method q).StagesOnly) :
    AllOrNothing quoter form method name s (call quoter form method name s) := by
  rcases call_cases quoter form method name s with
    ⟨e, -, heq⟩ | ⟨q, e, scene, hresolve, hrun, heq⟩ | ⟨q, a, scene, hresolve, hrun, heq⟩
  · rw [heq]
    exact .nothing ⟨fun _ => rfl, rfl⟩ h
  · obtain ⟨made, hmade⟩ := hmethod q hresolve (s.scene name)
    rw [hrun] at hmade
    rw [heq]
    -- the run has staged bindings, and its context is dropped with them
    have hframe : scene.context.frame = s.frame.fastToLocals := by
      rw [hmade]
      exact Context.frame_stageAll_ofFrame (some name) made
    refine .nothing ?_ ?_
    · show s.frame.Unchanged scene.context.frame
      rw [hframe]
      exact h.unchanged_fastToLocals
    · show scene.context.frame.Sound
      rw [hframe]
      exact h.fastToLocals
  · obtain ⟨made, hmade⟩ := hmethod q hresolve (s.scene name)
    rw [hrun] at hmade
    rw [heq]
    have hcommit := Context.took_commit (some name) made h
    have hafter : (Stage.ofCommitted scene).frame =
        ((Context.ofFrame s.frame (some name)).stageAll made).commit.frame :=
      congrArg (fun c => c.commit.frame) hmade
    exact .all hresolve hrun hmade (hafter ▸ hcommit.1) (hafter ▸ hcommit.2)

variable {quoter form method name s}

/-- A call leaves its frame as the host keeps frames. -/
theorem AllOrNothing.sound {outcome : Except QuoteError α × Stage σ}
    (h : AllOrNothing quoter form method name s outcome) : outcome.2.frame.Sound := by
  cases h with
  | nothing _ sound => exact sound
  | all _ _ _ _ sound => exact sound

end Calls

/-! ### Driving a frame -/

namespace Frame

theorem sound_ofModule (moduleName filename : String) (line : Nat) :
    (ofModule moduleName filename line).Sound where
  slots := List.nodup_nil
  locals := List.nodup_nil
  unbound _ hn := absurd hn List.not_mem_nil
  module _ := ⟨rfl, rfl⟩

theorem sound_ofFunction (parent : Frame) {names : List String} (h : names.Nodup) :
    (parent.ofFunction names).Sound where
  slots := by
    have hnames : (parent.ofFunction names).slotNames = names := by
      simp [ofFunction, slotNames, Function.comp_def]
    rw [hnames]
    exact h
  locals := List.nodup_nil
  unbound _ _ _ := rfl
  module hlevel := absurd hlevel Bool.false_ne_true

end Frame

namespace Stage

/-- Whatever a name leads to only stages, if it is a quoter for a form at all. -/
def CallsStaging (quoter : QuoterKind → Quoter σ) (s : Stage σ) (name : String) : Prop :=
  ∀ form q, resolve quoter s name form = .ok q → q.StagesOnly

theorem callsStaging {quoter : QuoterKind → Quoter σ} (h : ∀ kind, (quoter kind).StagesOnly)
    (s : Stage σ) (name : String) : s.CallsStaging quoter name := by
  intro form q hq
  obtain ⟨kind, rfl⟩ := resolve_eq_ok quoter form name s hq
  exact h kind

/-- The stages into which the host drives a frame: it makes the frame of a module or of a function,
assigns names, and calls sites. In between other frames run, which bind globals and make objects. -/
inductive Driven (quoter : QuoterKind → Quoter σ) : Stage σ → Prop
  | module (moduleName filename : String) (line : Nat) (heap : Heap) (world : σ) :
      Driven quoter ⟨heap, .ofModule moduleName filename line, world⟩
  | function (parent : Frame) {names : List String} (distinct : names.Nodup) (heap : Heap)
      (world : σ) : Driven quoter ⟨heap, parent.ofFunction names, world⟩
  | set {s : Stage σ} (driven : Driven quoter s) (name : String) (value : Ref) :
      Driven quoter { s with frame := s.frame.set name value }
  | setGlobal {s : Stage σ} (driven : Driven quoter s) (name : String) (value : Ref) :
      Driven quoter { s with frame := s.frame.setGlobal name value }
  | block {s : Stage σ} (driven : Driven quoter s) {name : String}
      (staging : CallsStaging quoter s name) (body : String) (column : Nat) :
      Driven quoter (callBlock quoter name body column s).2
  | expression {s : Stage σ} (driven : Driven quoter s) {name : String}
      (staging : CallsStaging quoter s name) (body : String) (column : Nat) :
      Driven quoter (callExpression quoter name body column s).2
  | meanwhile {s : Stage σ} (driven : Driven quoter s) (globals : Bindings) (line : Nat)
      (heap : Heap) (world : σ) :
      Driven quoter ⟨heap, { s.frame with globals, line }, world⟩

/-- Every frame that the host has driven somewhere is sound. -/
theorem Driven.sound {quoter : QuoterKind → Quoter σ} {s : Stage σ} (h : Driven quoter s) :
    s.frame.Sound := by
  induction h with
  | module moduleName filename line => exact Frame.sound_ofModule moduleName filename line
  | function parent distinct => exact Frame.sound_ofFunction parent distinct
  | set _ name value ih => exact ih.set name value
  | setGlobal _ name value ih => exact ih.setGlobal name value
  | block _ staging body column ih =>
    exact (call_all_or_nothing quoter .block _ _ _ ih
      fun q hq => (staging .block q hq).block body column).sound
  | expression _ staging body column ih =>
    exact (call_all_or_nothing quoter .expression _ _ _ ih
      fun q hq => (staging .expression q hq).expression body column).sound
  | meanwhile _ globals line heap world ih => exact ⟨ih.slots, ih.locals, ih.unbound, ih.module⟩

end Stage

/-- **Dispatch is all or nothing.** The host keeps its frames sound, whatever it assigns and calls. In a
sound frame a call of either form changes the names that its quoter staged and no other, and nothing if
it fails, as long as the quoter only stages. This holds of the quoters for host code, of those for
files and of the probes, if the native quoters behind them only stage. -/
theorem dispatch_all_or_nothing (i : Interpretation σ) :
    (∀ kind : QuoterKind, (∀ n ∈ kind.natives, (i.native n).StagesOnly) →
      (i.quoter kind).StagesOnly) ∧
    (∀ s, Stage.Driven i.quoter s → s.frame.Sound) ∧
    ∀ s : Stage σ, s.frame.Sound → ∀ name, s.CallsStaging i.quoter name → ∀ body column,
      AllOrNothing i.quoter .block (fun q => q.quoteBlock body column) name s
        (callBlock i.quoter name body column s) ∧
      AllOrNothing i.quoter .expression (fun q => q.quoteExpression body column) name s
        (callExpression i.quoter name body column s) := by
  refine ⟨i.stagesOnly, fun s h => h.sound, fun s hsound name hstaging body column => ⟨?_, ?_⟩⟩
  · exact call_all_or_nothing i.quoter .block _ name s hsound
      fun q hq => (hstaging .block q hq).block body column
  · exact call_all_or_nothing i.quoter .expression _ name s hsound
      fun q hq => (hstaging .expression q hq).expression body column

/-- A function in a workshop without files, which has bound two of its four names to quoters. -/
def quotingStage : Stage Native.Workshop where
  heap := ⟨#[.quoter (.probe .failing), .quoter (.probe .recorder)]⟩
  frame := (((Frame.ofModule "m" "m.py" 1).ofFunction ["fails", "records", "partial", "seen"]).set
    "fails" ⟨0⟩).set "records" ⟨1⟩
  world := ⟨.emptyAt [], [], [], [], []⟩

/-- A call that fails has staged a name and leaves it unbound, and one that succeeds binds the name that
it staged. -/
theorem quotingStage_all_or_nothing :
    let quoter := Native.Workshop.interpretation.quoter
    let failed := callBlock quoter "fails" "x" 4 quotingStage
    let succeeded := callBlock quoter "records" "x" 4 quotingStage
    Stage.Driven quoter quotingStage ∧
      failed.1 = .error (.eval (.raised "boom")) ∧ failed.2.heap.size = 3 ∧
      quotingStage.frame.Unchanged failed.2.frame ∧
      succeeded.1 = .ok () ∧ succeeded.2.frame.get? "seen" = some ⟨2⟩ ∧
      succeeded.2.frame.Sound := by
  intro quoter failed succeeded
  obtain ⟨hkinds, hdriven, hcalls⟩ := dispatch_all_or_nothing Native.Workshop.interpretation
  have hstaging := Stage.callsStaging fun kind => hkinds kind fun n _ => Quoter.stagesOnly_native n
  have hquoting : Stage.Driven quoter quotingStage :=
    ((Stage.Driven.function _ (by decide) _ _).set "fails" ⟨0⟩).set "records" ⟨1⟩
  have hsound := hdriven quotingStage hquoting
  have hfailed := (hcalls quotingStage hsound "fails" (hstaging _ _) "x" 4).1
  have hsucceeded := (hcalls quotingStage hsound "records" (hstaging _ _) "x" 4).1
  refine ⟨hquoting, rfl, rfl, ?_, rfl, rfl, hsucceeded.sound⟩
  cases hfailed with
  | nothing unchanged _ => exact unchanged

end Quasiquote
