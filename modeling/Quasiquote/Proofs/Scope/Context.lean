import Quasiquote.Proofs.Scope.Frame
import Quasiquote.Scope.Context

/-!
# The two ways of reading a context

A context answers for one name, and it lists all bindings that can be seen. The list is made from the
globals, the mapping and what is staged; the answer for a name also looks at the slots. This file says
what staging and committing do to both, and where the two agree.

## Main Definitions

* `Context.stageAll` — bindings staged one after another
* `Context.Coherent` — a context as it is while it is used
* `Context.Action`, `Context.perform` — staging and committing, any number of times

## Main Statements

* `Context.Coherent.get?_bindings` — the list has the host's own names left out, and no other
* `Context.bindings_agree_iff` — the list and the answer differ for a staged name of the host's own, and
  for no other

## Design Notes

The slots need not be looked at for the list, as the mapping mirrors them from the moment at which the
context is opened. This is the invariant that staging and committing keep.
-/

namespace Quasiquote

namespace Context

variable {c : Context}

/-! ### Staging -/

/-- Bindings staged one after another. -/
def stageAll (c : Context) (made : Bindings) : Context :=
  made.foldl (fun c p => c.stage p.1 p.2) c

@[simp] theorem stageAll_nil (c : Context) : c.stageAll [] = c := rfl

theorem stageAll_append (c : Context) (a b : Bindings) :
    c.stageAll (a ++ b) = (c.stageAll a).stageAll b := List.foldl_append

/-- Staging touches nothing but what is staged. -/
theorem stageAll_eq (c : Context) (made : Bindings) :
    c.stageAll made = { c with pending := c.pending.insertAll made } := by
  induction made generalizing c with
  | nil => rfl
  | cons p made ih => exact ih (c.stage p.1 p.2)

/-- A name has the last value that was staged for it. -/
theorem get?_stageAll (c : Context) (made : Bindings) (name : String) :
    (c.stageAll made).get? name = (Table.last? made name).or (c.get? name) := by
  rw [stageAll_eq, get?, get?, Table.get?_insertAll, Option.or_assoc]

/-! ### Committing -/

/-- Nothing happens if nothing is staged, and else the frame receives what is. -/
theorem commit_cases (c : Context) :
    (c.pending = [] ∧ c.commit = c) ∨
      c.commit = { c with frame := c.frame.receive c.pending, pending := [] } := by
  cases hpending : c.pending with
  | nil => exact .inl ⟨rfl, commit_of_pending_nil hpending⟩
  | cons p rest =>
    refine .inr ?_
    rw [commit, hpending]
    rfl

/-- A committed context has nothing staged. -/
theorem pending_commit (c : Context) : c.commit.pending = [] := by
  rcases c.commit_cases with ⟨hnil, heq⟩ | heq
  · rw [heq, hnil]
  · rw [heq]

/-! ### Contexts in use -/

/-- A context as it is while it is used: its mapping mirrors the slots, and no table binds a name
twice. -/
structure Coherent (c : Context) : Prop where
  mirrored : c.frame.Mirrored
  locals : (Table.keys c.frame.locals).Nodup
  pending : (Table.keys c.pending).Nodup

theorem coherent_ofFrame {f : Frame} (hslots : f.slotNames.Nodup)
    (hlocals : (Table.keys f.locals).Nodup) (quoterName : Option String) :
    (ofFrame f quoterName).Coherent where
  mirrored := Frame.mirrored_fastToLocals hslots
  locals := by
    show (Table.keys f.fastToLocals.locals).Nodup
    rw [Frame.fastToLocals_eq]
    exact Frame.nodup_copySlots f.slots hlocals
  pending := List.nodup_nil

theorem Coherent.stage (h : c.Coherent) (name : String) (value : Ref) :
    (c.stage name value).Coherent :=
  ⟨h.mirrored, h.locals, Table.nodup_insert h.pending name value⟩

theorem Coherent.commit (h : c.Coherent) : c.commit.Coherent := by
  rcases c.commit_cases with ⟨-, heq⟩ | heq
  · rw [heq]
    exact h
  · rw [heq]
    exact ⟨h.mirrored.receive _, Frame.nodup_locals_receive h.locals _, List.nodup_nil⟩

/-- Bindings without the host's own names. -/
def visible (b : Bindings) : Bindings := b.filter fun p => !isDunder p.1

theorem bindings_eq (c : Context) :
    c.bindings = Table.insertAll (visible c.frame.globals)
      (visible c.frame.locals ++ visible c.pending) := by
  rw [visible, visible, visible, ← List.filter_append]
  rfl

theorem get?_visible (b : Bindings) (name : String) :
    Table.get? (visible b) name = if isDunder name then none else Table.get? b name := by
  rw [visible, Table.get?_filter (fun n => !isDunder n)]
  cases isDunder name <;> rfl

theorem last?_visible {b : Bindings} (h : (Table.keys b).Nodup) (name : String) :
    Table.last? (visible b) name = if isDunder name then none else Table.get? b name := by
  have hkeys : (Table.keys (visible b)).Nodup := h.sublist (List.filter_sublist.map Prod.fst)
  rw [Table.last?_of_nodup hkeys, get?_visible]

/-- **The list of all bindings** holds what the context answers for each name, without the host's own
names. -/
theorem Coherent.get?_bindings (h : c.Coherent) (name : String) :
    Table.get? c.bindings name = if isDunder name then none else c.get? name := by
  rw [bindings_eq, Table.get?_insertAll, Table.last?_append, last?_visible h.pending,
    last?_visible h.locals, get?_visible]
  cases hdunder : isDunder name with
  | true => rfl
  | false =>
    show ((Table.get? c.pending name).or (Table.get? c.frame.locals name)).or
      (Table.get? c.frame.globals name) = c.get? name
    rw [get?, hdunder, Option.or_assoc, ← h.mirrored.get?]
    rfl

/-! ### Any number of steps -/

/-- What the user of a context can do to it. -/
inductive Action where
  | stage (name : String) (value : Ref)
  | commit
deriving DecidableEq, Repr

/-- The context after an action. -/
def act (c : Context) : Action → Context
  | .stage name value => c.stage name value
  | .commit => c.commit

/-- The context after some actions. -/
def perform (c : Context) (actions : List Action) : Context := actions.foldl act c

theorem Coherent.act (h : c.Coherent) (a : Action) : (c.act a).Coherent := by
  cases a with
  | stage name value => exact h.stage name value
  | commit => exact h.commit

theorem Coherent.perform (h : c.Coherent) (actions : List Action) :
    (c.perform actions).Coherent := by
  induction actions generalizing c with
  | nil => exact h
  | cons a actions ih => exact ih (h.act a)

/-- **Where the two ways of reading a context agree.** The list of bindings never holds one of the
host's own names. For all other names it holds what the context answers, and for the host's own ones
the two agree unless such a name is staged. -/
theorem bindings_agree_iff {f : Frame} (hslots : f.slotNames.Nodup)
    (hlocals : (Table.keys f.locals).Nodup) (quoterName : Option String) (actions : List Action)
    (name : String) :
    let c := (ofFrame f quoterName).perform actions
    Table.get? c.bindings name = (if isDunder name then none else c.get? name) ∧
      (Table.get? c.bindings name = c.get? name ↔
        ¬ (isDunder name = true ∧ name ∈ Table.keys c.pending)) := by
  intro c
  have hcoherent : c.Coherent := (coherent_ofFrame hslots hlocals quoterName).perform actions
  refine ⟨hcoherent.get?_bindings name, ?_⟩
  rw [hcoherent.get?_bindings]
  cases hdunder : isDunder name with
  | false => simp
  | true =>
    -- a name of the host's own can be seen only where it is staged
    have hget : c.get? name = Table.get? c.pending name := by
      rw [get?, hdunder]
      exact Option.or_none
    rw [hget]
    simp only [if_true, true_and, ← Table.get?_eq_none_iff]
    exact eq_comm

/-- A function with a bound and an unbound slot, whose module has names of the host's own. -/
def slottedFrame : Frame :=
  { moduleName := "m", filename := "m.py", line := 1,
    slots := [("a", some ⟨1⟩), ("b", none)], locals := [("c", ⟨2⟩)],
    globals := [("__name__", ⟨0⟩), ("a", ⟨3⟩)], moduleLevel := false }

/-- A staged name of the host's own is answered for and is not in the list. -/
theorem slottedFrame_disagrees :
    let c := (ofFrame slottedFrame none).perform [.stage "b" ⟨4⟩, .commit, .stage "__x__" ⟨5⟩]
    slottedFrame.slotNames.Nodup ∧ (Table.keys slottedFrame.locals).Nodup ∧
      c.get? "__x__" = some ⟨5⟩ ∧ Table.get? c.bindings "__x__" ≠ c.get? "__x__" ∧
      Table.get? c.bindings "b" = c.get? "b" := by
  intro c
  have hslots : slottedFrame.slotNames.Nodup := by decide
  have hlocals : (Table.keys slottedFrame.locals).Nodup := by decide
  refine ⟨hslots, hlocals, by decide, fun hagree => ?_, ?_⟩
  · exact (bindings_agree_iff hslots hlocals none _ "__x__").2.1 hagree (by decide)
  · exact (bindings_agree_iff hslots hlocals none _ "b").2.2 (by decide)

end Context

end Quasiquote
