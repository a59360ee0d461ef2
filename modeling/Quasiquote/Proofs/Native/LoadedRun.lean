import Mathlib.Algebra.Group.Pi.Basic
import Mathlib.Data.List.ReduceOption
import Quasiquote.Native.Loaded
import Quasiquote.Proofs.Native.References
import Quasiquote.Proofs.Scope.Context

/-!
# Running a loaded body

A body is called with the objects that its names mean. The host keeps these while the body runs, and takes
over the objects that the body puts into its slots. If the body gives a result, the names of these slots
are staged; if it gives none, what it put there is released, and the context stays as it was. Either way
all references are accounted for in the end.

## Main Definitions

* `Frame.held`, `Context.held` — the references that a scope holds
* `Native.HandleTable.Accounted` — all references to the objects of a table are accounted for
* `Native.Obeys` — a body that obeys the rules of ownership
* `Native.Fault`, `Native.Call.fault?` — why a call fails, with the words for it
* `Native.Body.lastRecorded` — the error that some calls record last
* `Native.Stages` — what is staged for the slots that hold other objects than before

## Main Statements

* `Native.HandleTable.Accounted.stageAll` — staging takes references over
* `Native.Body.error_next` — which error a call leaves
* `Native.changedSlots_stages` — the slots that are found changed are those that are
* `Native.LoadedQuote.run_accounted` — what a run passes, answers, stages and releases

## Design Notes

A body reaches objects through the function table alone. So a body obeys the rules if what it does is a run
of lawful calls, after which it owns what it hands over: its result, and the objects in the slots that it
changed. A slot that it empties was borrowed, and there is nothing to hand over for it.
-/

namespace Quasiquote

/-! ### The references of a scope -/

/-- The references that a frame holds: those in its slots, in its mapping, and among its globals. -/
def Frame.held (f : Frame) : List Ref :=
  (f.slots.map Prod.snd).reduceOption ++ (f.locals.map Prod.snd ++ f.globals.map Prod.snd)

namespace Context

/-- The references that a context holds: those of its frame, and those that are staged. -/
def held (c : Context) : List Ref := c.frame.held ++ c.pending.map Prod.snd

variable {c : Context} {name : String} {r : Ref}

/-- What a name means is held. -/
theorem mem_held_of_get? (h : c.get? name = some r) : r ∈ c.held := by
  have htable {t : Bindings} (h : t.get? name = some r) : r ∈ t.map Prod.snd :=
    List.mem_map_of_mem (Table.mem_of_get? h)
  rw [held, List.mem_append]
  rw [get?, Option.or_eq_some_iff] at h
  rcases h with h | ⟨-, h⟩
  · exact .inr (htable h)
  · left
    split at h
    · cases h
    · simp only [Frame.held, List.mem_append]
      rw [Frame.get?, Option.or_eq_some_iff, Option.or_eq_some_iff] at h
      rcases h with h | ⟨-, h | ⟨-, h⟩⟩
      · left
        rw [Frame.slot?, Option.join_eq_some_iff] at h
        exact List.reduceOption_mem_iff.2 (List.mem_map_of_mem (Table.mem_of_get? h))
      · exact .inr (.inl (htable h))
      · exact .inr (.inr (htable h))

/-- A binding that is staged takes the place of the one that was staged for the name. -/
theorem ofList_held_stage (c : Context) (name : String) (r : Ref) :
    Native.Counts.ofList (c.stage name r).held + Native.Counts.ofList (c.pending.get? name).toList =
      Native.Counts.ofList c.held + Native.Counts.ofList [r] := by
  rw [← Native.Counts.ofList_append, ← Native.Counts.ofList_append, held, held, List.append_assoc,
    List.append_assoc]
  exact Native.Counts.ofList_perm ((c.pending.perm_insert name r).append_left _)

end Context

namespace Native

variable {t : HandleTable} {outside : Counts} {r : Ref} {refs : List Ref} {handles : List Handle}

/-! ### Tables whose references are accounted for -/

/-- **All references to the objects of a table are accounted for:** those from outside, and those that live
objects hold. There are none to anything outside the heap. -/
structure HandleTable.Accounted (t : HandleTable) (outside : Counts) : Prop where
  balanced : Balanced outside t.heap t.counts []
  within : ∀ r, t.heap.size ≤ r.index → t.counts r = 0

/-- For a body, what it owns is outside as well. -/
theorem Body.accounted_iff {b : Body} {host : Counts} :
    b.Accounted host ↔ b.table.Accounted (host + b.owned) :=
  ⟨fun h => ⟨h.balanced, h.within⟩, fun h => .of_balanced h.balanced h.within⟩

/-- Some references are given up, one after another. -/
theorem dropAll_eq (t : HandleTable) (handles : List Handle) :
    dropAll t handles = { t with counts := releaseAll t.heap t.counts handles.reduceOption } := by
  induction handles generalizing t with
  | nil =>
    rw [List.reduceOption_nil, releaseAll]
    rfl
  | cons handle handles ih =>
    cases handle with
    | none => exact ih t
    | some r =>
      rw [List.reduceOption_cons_of_some]
      refine (ih (t.release r)).trans ?_
      rw [← List.singleton_append, releaseAll_append]
      rfl

theorem decref_eq (t : HandleTable) (handle : Handle) :
    t.decref handle = { t with counts := releaseAll t.heap t.counts handle.toList } := by
  cases handle with
  | none =>
    rw [Option.toList_none, releaseAll]
    rfl
  | some r => rfl

namespace HandleTable.Accounted

theorem live (h : t.Accounted outside) (hr : outside r ≠ 0) : t.counts r ≠ 0 := by
  have hbalance := h.balanced r
  omega

/-- References from outside are given up. -/
theorem give (h : t.Accounted (outside + Counts.ofList refs)) :
    HandleTable.Accounted { t with counts := releaseAll t.heap t.counts refs } outside where
  balanced := releaseAll_balance (balanced_add_ofList.1 h.balanced)
  within r hr := by
    have hle := releaseAll_le t.heap t.counts refs r
    rw [h.within r hr] at hle
    exact Nat.le_zero.1 hle

/-- One more reference from outside to a live object. -/
theorem retain (h : t.Accounted outside) (hr : t.counts r ≠ 0) :
    (t.retain r).Accounted (outside + Counts.ofList [r]) := by
  have hbody : (Body.ofTable t).Accounted outside := Body.accounted_iff.2 h
  have howned : Counts.retain (fun _ => 0) r = Counts.ofList [r] := by
    funext s
    by_cases hs : s = r
    · simp [hs, Counts.retain, Counts.ofList]
    · simp [Counts.retain, Counts.set_of_ne _ _ hs, Counts.ofList, Ne.symm hs]
  rw [← howned]
  exact Body.accounted_iff.1 (hbody.incref hr)

/-- The objects of some handles are kept. -/
theorem retainAll (h : t.Accounted outside) (hlive : ∀ r ∈ handles.reduceOption, t.counts r ≠ 0) :
    (Native.retainAll t handles).Accounted (outside + Counts.ofList handles.reduceOption) := by
  induction handles generalizing t outside with
  | nil => exact h
  | cons handle handles ih =>
    cases handle with
    | none => exact ih h hlive
    | some r =>
      rw [List.reduceOption_cons_of_some] at hlive ⊢
      rw [List.forall_mem_cons] at hlive
      have hrest : ∀ s ∈ handles.reduceOption, (t.retain r).counts s ≠ 0 := by
        intro s hs
        by_cases heq : s = r
        · simp [heq, HandleTable.retain, Counts.retain]
        · simpa [HandleTable.retain, Counts.retain, Counts.set_of_ne _ _ heq] using hlive.2 s hs
      rw [Counts.ofList_cons, ← add_assoc]
      exact ih (h.retain hlive.1) hrest

/-- Staging takes a reference over, and releases the one of the binding that was staged before. -/
theorem stageOwned {c : Context} (h : t.Accounted (outside + Counts.ofList c.held + Counts.ofList [r]))
    (name : String) :
    (Native.stageOwned name r c t).2.Accounted (outside + Counts.ofList (c.stage name r).held) := by
  rw [add_assoc, ← c.ofList_held_stage name r, ← add_assoc] at h
  show (t.decref (c.pending.get? name)).Accounted _
  rw [decref_eq]
  exact h.give

/-- **Staging takes references over,** and changes no object. -/
theorem stageAll {c : Context} {staged : Bindings}
    (h : t.Accounted (outside + Counts.ofList c.held + Counts.ofList (staged.map Prod.snd))) :
    ∃ t' : HandleTable, Native.stageAll staged c t = (c.stageAll staged, t') ∧ t'.heap = t.heap ∧
      t'.Accounted (outside + Counts.ofList (c.stageAll staged).held) := by
  induction staged generalizing c t with
  | nil => exact ⟨t, rfl, rfl, h⟩
  | cons p rest ih =>
    obtain ⟨name, r⟩ := p
    rw [List.map_cons, Counts.ofList_cons, add_comm (Counts.ofList [r]), ← add_assoc,
      add_right_comm outside] at h
    have hfirst := h.stageOwned name
    rw [add_right_comm] at hfirst
    obtain ⟨t', hstage, hheap, haccounted⟩ := ih hfirst
    refine ⟨t', hstage, hheap.trans ?_, haccounted⟩
    show (t.decref (c.pending.get? name)).heap = t.heap
    rw [decref_eq]

end HandleTable.Accounted

/-! ### Recorded errors -/

/-- Why a call of the function table fails. -/
inductive Fault where
  | nullHandle
  | nullItem
  | nullData
  /-- An object of another type than the call expects. -/
  | wrongType (expected found : String)
  /-- A list without such an item. -/
  | noItem (index length : Nat)
  /-- The body reports a failure of its own, by a C string. -/
  | raised (message : List UInt8)
  | raisedNothing
deriving DecidableEq

/-- The words for it. -/
def Fault.message : Fault → String
  | nullHandle => "SystemError: NULL handle"
  | nullItem => "SystemError: NULL item"
  | nullData => "SystemError: NULL string data"
  | wrongType expected found => "TypeError: expected " ++ expected ++ ", got " ++ found
  | noItem index length =>
    "IndexError: index " ++ toString index ++ " out of range for list of length " ++ toString length
  | raised message => HandleTable.cText message
  | raisedNothing => "error raised by native code"

namespace Call

/-- Why a call fails that expects an object of a type, which has a name, and which some objects have. -/
def typeFault? (h : Heap) (handle : Handle) (expected : String) (has : Object → Bool) : Option Fault :=
  match handle with
  | none => some .nullHandle
  | some r => if has (h.get r) then none else some (.wrongType expected (h.get r).typeName)

/-- Why a call fails that expects a list with an item at an index. -/
def itemFault? (h : Heap) (handle : Handle) (index : Nat) : Option Fault :=
  match handle.bind h.items? with
  | some items => if index < items.length then none else some (.noItem index items.length)
  | none => typeFault? h handle "list" fun o => o.items?.isSome

/-- **Why a call fails,** if it does, on the objects of a heap. A missing new item is found before anything
that is wrong with the list. -/
def fault? (h : Heap) : Call → Option Fault
  | isNone handle => typeFault? h handle "object" fun _ => true
  | asInt handle => typeFault? h handle "int" fun o => o.int?.isSome
  | asFloat handle => typeFault? h handle "float" fun o => o.number?.isSome
  | strData handle => typeFault? h handle "str" fun o => o.text?.isSome
  | listLen handle => typeFault? h handle "list" fun o => o.items?.isSome
  | listGet handle index => itemFault? h handle index
  | listSet _ _ none => some .nullItem
  | listSet handle index (some _) => itemFault? h handle index
  | fromNothing length => if length = 0 then none else some .nullData
  | raise message => some (.raised message)
  | raiseNothing => some .raisedNothing
  | incref _ | decref _ | makeNone | fromInt _ | fromFloat _ | fromBytes _ | listNew _ | takeError => none

end Call

/-- What is recorded after a call that fails or does not. -/
def recordedAfter (fault : Option Fault) (before : Option String) : Option String :=
  (fault.map Fault.message).or before

/-- Where an item of a list is called for, the list is looked at first, then the item. -/
theorem recordedAfter_itemFault? (h : Heap) (r : Ref) (index : Nat) (before : Option String) :
    recordedAfter (Call.itemFault? h (some r) index) before =
      match h.items? r with
      | none => some (Fault.wrongType "list" (h.get r).typeName).message
      | some items =>
        match items[index]? with
        | none => some (Fault.noItem index items.length).message
        | some _ => before := by
  rw [Call.itemFault?, Option.bind_some]
  cases hitems : h.items? r with
  | none =>
    have hlist : (h.get r).items? = none := hitems
    simp only [Call.typeFault?, hlist, Option.isSome_none, Bool.false_eq_true, if_false]
    rfl
  | some items =>
    by_cases hindex : index < items.length
    · simp only [hindex, if_true, List.getElem?_eq_getElem]
      rfl
    · simp only [hindex, if_false, List.getElem?_eq_none (Nat.le_of_not_lt hindex)]
      rfl

namespace HandleTable

theorem error_listGet (t : HandleTable) (handle : Handle) (index : Nat) :
    (t.listGet handle index).2.error = recordedAfter (Call.itemFault? t.heap handle index) t.error := by
  cases handle with
  | none => rfl
  | some r =>
    rw [recordedAfter_itemFault?]
    simp only [listGet]
    cases t.heap.items? r with
    | none => rfl
    | some items =>
      cases hitem : items[index]? with
      | none =>
        simp only [hitem]
        rfl
      | some item => simp only [hitem]

theorem error_listSet (t : HandleTable) (handle : Handle) (index : Nat) (new : Ref) :
    (t.listSet handle index (some new)).2.error =
      recordedAfter (Call.itemFault? t.heap handle index) t.error := by
  cases handle with
  | none => rfl
  | some r =>
    rw [recordedAfter_itemFault?]
    simp only [listSet, Heap.setItem?]
    cases t.heap.items? r with
    | none => rfl
    | some items =>
      cases hitem : items[index]? with
      | none =>
        simp only [hitem]
        rfl
      | some old =>
        simp only [hitem]
        rfl

end HandleTable

namespace Body

variable {b : Body} {call : Call} {calls : List Call}

/-- **The error that some calls record last:** the words for the last one of them that fails. -/
def lastRecorded (b : Body) : List Call → Option String
  | [] => none
  | call :: rest => ((b.next call).lastRecorded rest).or ((call.fault? b.table.heap).map Fault.message)

/-- **What a call records.** A call that fails leaves the words for its failure, and any other one the error
that there was. -/
theorem error_next (hallows : b.Allows call) (hcall : call ≠ .takeError) :
    (b.next call).table.error = recordedAfter (call.fault? b.table.heap) b.table.error := by
  cases call with
  | takeError => exact absurd rfl hcall
  | makeNone | fromInt _ | fromFloat _ | fromBytes _ | listNew _ | raise _ | raiseNothing => rfl
  | incref handle => cases handle <;> rfl
  | decref handle =>
    cases handle with
    | none => rfl
    | some r =>
      rw [next, step, if_neg (hallows.owned r rfl)]
      rfl
  | fromNothing length =>
    by_cases hlength : length = 0
    · simp only [next, step, HandleTable.fromNothing, hlength, if_true, Call.fault?]
      rfl
    · simp only [next, step, HandleTable.fromNothing, hlength, if_false, Call.fault?]
      rfl
  | isNone handle => cases handle <;> rfl
  | asInt handle | asFloat handle | strData handle | listLen handle =>
    cases handle with
    | none => rfl
    | some r =>
      simp only [next, step, looking, withTable, HandleTable.asInt, HandleTable.asFloat,
        HandleTable.strData, HandleTable.listLen, Heap.items?, Call.fault?, Call.typeFault?]
      split
      · next hread =>
        simp only [hread, Option.isSome_some, if_true]
        rfl
      · next hread =>
        simp only [hread, Option.isSome_none, Bool.false_eq_true, if_false]
        rfl
  | listGet handle index => exact b.table.error_listGet handle index
  | listSet handle index item =>
    cases item with
    | none => rfl
    | some new =>
      rw [next, step, if_neg (hallows.owned new rfl)]
      exact b.table.error_listSet handle index new

/-- After lawful calls the error is left that was recorded last, or else the one that there was. -/
theorem Lawful.error_run (hlawful : b.Lawful calls) (hcalls : .takeError ∉ calls) :
    (b.run calls).table.error = (b.lastRecorded calls).or b.table.error := by
  induction calls generalizing b with
  | nil => rfl
  | cons call calls ih =>
    rw [List.mem_cons, not_or] at hcalls
    show ((b.next call).run calls).table.error = _
    rw [ih hlawful.2 hcalls.2, error_next hlawful.1 (Ne.symm hcalls.1), lastRecorded, Option.or_assoc,
      recordedAfter]

end Body

/-! ### Slots -/

/-- The object of a slot that holds another one than before. -/
def replacement (before after : Handle) : Handle := if after = before then none else after

theorem replacement_eq_some_iff {before after : Handle} :
    replacement before after = some r ↔ after = some r ∧ before ≠ some r := by
  unfold replacement
  split
  · next heq =>
    subst heq
    simp
  · next hne =>
    refine ⟨fun h => ⟨h, fun hbefore => hne (h.trans hbefore.symm)⟩, And.left⟩

/-- The objects of the slots that hold others than before. -/
def reassigned (before after : List Handle) : List Ref := (before.zipWith replacement after).reduceOption

/-- **What is staged for slots:** in their order, the names of the slots that hold an object other than
before, with this object. -/
structure Stages (names : List String) (before after : List Handle) (staged : Bindings) : Prop where
  order : (Table.keys staged).Sublist names
  mem_iff : ∀ name r, (name, r) ∈ staged ↔
    ∃ i : Nat, names[i]? = some name ∧ after[i]? = some (some r) ∧ before[i]? ≠ some (some r)

theorem changedSlots_cons (name : String) (names : List String) (before after : Handle)
    (befores afters : List Handle) :
    changedSlots (name :: names) (before :: befores) (after :: afters) =
      ((replacement before after).map (Prod.mk name)).toList ++ changedSlots names befores afters := by
  cases after with
  | none => cases before <;> rfl
  | some r =>
    by_cases heq : before = some r
    · simp [changedSlots, replacement, heq]
    · simp [changedSlots, replacement, heq, Ne.symm heq]

theorem reassigned_cons (before after : Handle) (befores afters : List Handle) :
    reassigned (before :: befores) (after :: afters) =
      (replacement before after).toList ++ reassigned befores afters := by
  rw [reassigned, List.zipWith_cons_cons]
  cases replacement before after with
  | none => rfl
  | some r => rfl

/-- **The slots that are found changed are those that are.** -/
theorem changedSlots_stages {names : List String} {before after : List Handle}
    (hbefore : before.length = names.length) (hafter : after.length = before.length) :
    Stages names before after (changedSlots names before after) := by
  induction names generalizing before after with
  | nil =>
    obtain rfl := List.eq_nil_of_length_eq_zero hbefore
    exact ⟨List.Sublist.refl _, by simp [changedSlots]⟩
  | cons name names ih =>
    obtain ⟨b, befores, rfl⟩ := List.exists_cons_of_length_eq_add_one hbefore
    obtain ⟨a, afters, rfl⟩ := List.exists_cons_of_length_eq_add_one hafter
    obtain ⟨horder, hmem⟩ := ih (Nat.succ.inj hbefore) (Nat.succ.inj hafter)
    rw [changedSlots_cons]
    refine ⟨?_, fun name' r => ?_⟩
    · cases replacement b a with
      | none => exact horder.cons name
      | some r => exact horder.cons_cons name
    · rw [List.mem_append, hmem]
      refine Iff.trans ?_ Nat.or_exists_add_one
      refine or_congr ?_ Iff.rfl
      simp only [Option.mem_toList, Option.map_eq_some_iff, replacement_eq_some_iff,
        Prod.mk.injEq, List.getElem?_cons_zero, Option.some.injEq, ne_eq]
      exact ⟨fun ⟨_, hslot, hname, hr⟩ => ⟨hname, hr ▸ hslot⟩, fun ⟨hname, hslot⟩ => ⟨r, hslot, hname, rfl⟩⟩

theorem map_changedSlots {names : List String} {before after : List Handle}
    (hbefore : before.length = names.length) (hafter : after.length = before.length) :
    (changedSlots names before after).map Prod.snd = reassigned before after := by
  induction names generalizing before after with
  | nil =>
    obtain rfl := List.eq_nil_of_length_eq_zero hbefore
    rfl
  | cons name names ih =>
    obtain ⟨b, befores, rfl⟩ := List.exists_cons_of_length_eq_add_one hbefore
    obtain ⟨a, afters, rfl⟩ := List.exists_cons_of_length_eq_add_one hafter
    rw [changedSlots_cons, reassigned_cons, List.map_append,
      ih (Nat.succ.inj hbefore) (Nat.succ.inj hafter)]
    cases replacement b a with
    | none => rfl
    | some r => rfl

theorem reduceOption_changedSlots {names : List String} {before after : List Handle}
    (hbefore : before.length = names.length) (hafter : after.length = before.length) :
    ((changedSlots names before after).map fun p => some p.2).reduceOption = reassigned before after := by
  rw [← map_changedSlots hbefore hafter, List.reduceOption, List.filterMap_map]
  exact congrFun List.filterMap_eq_map _

/-! ### Runs -/

/-- **A body that obeys the rules of ownership** where it is called with some slots and a table: what it
does is a run of lawful calls of the function table, and what it owns in the end is what it hands over, its
result and the objects in the slots that it changed. No function takes a recorded error away. -/
structure Obeys (slots : List Handle) (t : HandleTable) (calls : List Call)
    (outcome : Handle × List Handle × HandleTable) : Prop where
  lawful : (Body.ofTable t).Lawful calls
  table : ((Body.ofTable t).run calls).table = outcome.2.2
  owned : ((Body.ofTable t).run calls).owned =
    Counts.ofList (outcome.1.toList ++ reassigned slots outcome.2.1)
  slots : outcome.2.1.length = slots.length
  keeps : .takeError ∉ calls

section Run

variable {q : LoadedQuote} {c : Context} {slots after : List Handle} {calls : List Call} {result : Handle}
  {left : HandleTable}

/-- What is handed over comes on top of what is accounted for. -/
theorem Obeys.accounted (h : Obeys slots t calls (result, after, left)) (ht : t.Accounted outside) :
    left.Accounted (outside + Counts.ofList (result.toList ++ reassigned slots after)) := by
  have hstart : (Body.ofTable t).Accounted outside := Body.accounted_iff.2 ht
  have hend := Body.accounted_iff.1 (h.lawful.accounted hstart)
  rwa [h.table, h.owned] at hend

/-- The error that is left is the one that was recorded last. -/
theorem Obeys.error (h : Obeys slots t calls (result, after, left)) (ht : t.error = none) :
    left.error = (Body.ofTable t).lastRecorded calls := by
  have hend := h.lawful.error_run h.keeps
  rw [h.table] at hend
  rw [hend, Body.ofTable, ht, Option.or_none]

/-- A run without a result releases what the body put into its slots, and what was kept. -/
theorem LoadedQuote.run_of_none (hslots : slots = q.names.map c.get?)
    (hcode : q.code slots { retainAll t slots with error := none } = (none, after, left))
    (hafter : after.length = slots.length) :
    q.run c t = (.error (.native (left.error.getD silentFailure)), c,
      { left with
        counts := releaseAll left.heap left.counts (reassigned slots after ++ slots.reduceOption)
        error := none }) := by
  subst hslots
  have hchanged := reduceOption_changedSlots (List.length_map c.get?) hafter
  simp only [LoadedQuote.run, hcode, HandleTable.takeError, dropAll_eq, hchanged, releaseAll_append]

/-- A run with a result stages what the body put into its slots. -/
theorem LoadedQuote.run_of_some {value : Ref} (hslots : slots = q.names.map c.get?)
    (hcode : q.code slots { retainAll t slots with error := none } = (some value, after, left)) :
    q.run c t = (.ok value, (stageAll (changedSlots q.names slots after) c left).1,
      dropAll (stageAll (changedSlots q.names slots after) c left).2 slots) := by
  subst hslots
  simp only [LoadedQuote.run, hcode]

end Run

/-- **A run of a loaded body.** The body is called with the objects that its names mean, nothing for those
that mean none, and nothing else of it matters. Where all references are accounted for and the body obeys
the rules of ownership,

* if it gives no result, the error that it recorded last is the answer, nothing is staged, and for each
  slot that it changed one reference is released;
* if it gives a result, that is the answer, and exactly the names of the slots that hold an object other
  than before are staged, in their order, with the references to their objects.

Either way all references are accounted for afterwards: those of the frame, those that are staged, those in
lists and that of the result. -/
theorem LoadedQuote.run_accounted (q : LoadedQuote) {c : Context} {t : HandleTable} {others : Counts}
    (ht : t.Accounted (others + Counts.ofList c.held)) {calls : List Call}
    {slots after : List Handle} (hslots : slots = q.names.map c.get?)
    {start left : HandleTable} (hstart : start = { retainAll t slots with error := none })
    {result : Handle} (hcode : q.code slots start = (result, after, left))
    (hcalls : Obeys slots start calls (result, after, left)) :
    (∀ code : BodyCode, code slots start = (result, after, left) →
      LoadedQuote.run { q with code } c t = q.run c t) ∧
    (result = none → ∃ t' : HandleTable,
      q.run c t =
        (.error (.native (((Body.ofTable start).lastRecorded calls).getD silentFailure)), c, t') ∧
      t'.heap = left.heap ∧
      t'.counts = releaseAll left.heap left.counts (reassigned slots after ++ slots.reduceOption) ∧
      t'.Accounted (others + Counts.ofList c.held)) ∧
    ∀ value, result = some value → ∃ (staged : Bindings) (t' : HandleTable),
      q.run c t = (.ok value, c.stageAll staged, t') ∧ Stages q.names slots after staged ∧
      t'.heap = left.heap ∧
      t'.Accounted (others + Counts.ofList (c.stageAll staged).held + Counts.ofList [value]) := by
  subst hstart
  have hlength : slots.length = q.names.length := by rw [hslots, List.length_map]
  -- the objects in the slots are kept, as the context holds them
  have hlive : ∀ r ∈ slots.reduceOption, t.counts r ≠ 0 := by
    intro r hr
    rw [List.reduceOption_mem_iff, hslots] at hr
    obtain ⟨name, -, hname⟩ := List.mem_map.1 hr
    have hheld : 0 < c.held.count r := List.count_pos_iff.2 (Context.mem_held_of_get? hname)
    refine ht.live ?_
    rw [Pi.add_apply, Counts.ofList]
    omega
  have hkept := ht.retainAll hlive
  have hleft := hcalls.accounted ⟨hkept.balanced, hkept.within⟩
  refine ⟨?_, ?_, ?_⟩
  · intro code hsame
    subst hslots
    simp only [LoadedQuote.run, hcode, hsame]
  · rintro rfl
    rw [Option.toList_none, List.nil_append, add_assoc, add_comm (Counts.ofList slots.reduceOption),
      ← Counts.ofList_append] at hleft
    have hrun := LoadedQuote.run_of_none hslots hcode hcalls.slots
    rw [hcalls.error rfl] at hrun
    exact ⟨_, hrun, rfl, rfl, hleft.give.balanced, hleft.give.within⟩
  · rintro value rfl
    have hrefs := map_changedSlots hlength hcalls.slots
    rw [Option.toList_some, List.singleton_append, Counts.ofList_cons, ← hrefs, ← add_assoc,
      add_right_comm others, add_right_comm _ (Counts.ofList c.held)] at hleft
    obtain ⟨t', hstage, hheap, haccounted⟩ := hleft.stageAll
    rw [add_right_comm, add_right_comm others, add_right_comm _ (Counts.ofList _)] at haccounted
    refine ⟨changedSlots q.names slots after, dropAll t' slots, ?_,
      changedSlots_stages hlength hcalls.slots, ?_, ?_⟩
    · rw [LoadedQuote.run_of_some hslots hcode, hstage]
    · rw [dropAll_eq]
      exact hheap
    · rw [dropAll_eq]
      exact haccounted.give

/-- A body that holds the object in its second slot once more, puts it into its first slot, and gives none
as its result. -/
def handOverCode : BodyCode := fun slots t =>
  match slots with
  | [_, some r] =>
    let (made, t) := (t.incref (some r)).make .none
    (some made, [some r, some r], t)
  | _ => (none, slots, t.raiseNothing)

/-- A body that reads the object in its second slot as an integer, holds it once more, puts it into its first
slot, and gives no result. -/
def mistakenCode : BodyCode := fun slots t =>
  match slots with
  | [_, some r] => (none, [some r, some r], (t.asInt (some r)).2.incref (some r))
  | _ => (none, slots, t.raiseNothing)

/-- A body with two names. -/
def sentinelQuote (code : BodyCode) : LoadedQuote :=
  { path := "m.so", kind := .block, names := ["a", "sentinel"], code }

/-- A module in which the names mean an integer and a list. -/
def sentinelContext : Context :=
  .ofFrame (((Frame.ofModule "m" "m.py" 3).set "a" ⟨0⟩).set "sentinel" ⟨1⟩) (some "c")

/-- The objects of the module. -/
def sentinelTable : HandleTable :=
  .ofHeap ⟨#[.int 1, .list [⟨2⟩], .str "sentinel"]⟩ fun r => if r.index < 3 then 1 else 0

/-- The slots that a body with the two names is called with. -/
def sentinelSlots : List Handle := [some ⟨0⟩, some ⟨1⟩]

/-- The table that it is called with. -/
def sentinelStart : HandleTable := { retainAll sentinelTable sentinelSlots with error := none }

theorem sentinelTable_accounted :
    sentinelTable.Accounted (0 + Counts.ofList sentinelContext.held) where
  balanced r := by
    obtain ⟨_ | _ | _ | i⟩ := r <;>
      simp [sentinelTable, HandleTable.ofHeap, Counts.slots, Heap.size, Finset.sum_range_succ, Heap.get,
        Object.held, Counts.ofList, sentinelContext, Context.held, Context.ofFrame, Frame.held,
        Frame.ofModule, Frame.set, Frame.slotNames, Frame.storeLocal, Frame.setGlobal, Frame.fastToLocals,
        Table.insert]
  within r hr := by
    have hle : 3 ≤ r.index := hr
    exact if_neg (by omega)

theorem handOverCode_obeys :
    Obeys sentinelSlots sentinelStart [.incref (some ⟨1⟩), .makeNone]
      (some ⟨3⟩, [some ⟨1⟩, some ⟨1⟩], (handOverCode sentinelSlots sentinelStart).2.2) := by
  refine ⟨⟨⟨?_, nofun⟩, ⟨nofun, nofun⟩, trivial⟩, rfl, ?_, rfl, by simp⟩
  · exact List.forall_mem_singleton.2 (by decide)
  · show (Counts.retain (fun _ => 0) ⟨1⟩).retain ⟨3⟩ = Counts.ofList [⟨3⟩, ⟨1⟩]
    funext r
    obtain ⟨_ | _ | _ | _ | i⟩ := r <;> simp [Counts.retain, Counts.set, Counts.ofList]

theorem mistakenCode_obeys :
    Obeys sentinelSlots sentinelStart [.asInt (some ⟨1⟩), .incref (some ⟨1⟩)]
      (none, [some ⟨1⟩, some ⟨1⟩], (mistakenCode sentinelSlots sentinelStart).2.2) := by
  refine ⟨⟨⟨?_, nofun⟩, ⟨?_, nofun⟩, trivial⟩, rfl, ?_, rfl, by simp⟩
  · exact List.forall_mem_singleton.2 (by decide)
  · exact List.forall_mem_singleton.2 (by decide)
  · show Counts.retain (fun _ => 0) ⟨1⟩ = Counts.ofList [⟨1⟩]
    funext r
    obtain ⟨_ | _ | i⟩ := r <;> simp [Counts.retain, Counts.set, Counts.ofList]

/-- A body that succeeds has its slot staged. One that fails of the wrong type, after its slot was changed,
has the words for it answered and leaves the context as it was. -/
theorem sentinelQuote_runs :
    (∃ t' : HandleTable,
      (sentinelQuote handOverCode).run sentinelContext sentinelTable =
        (.ok ⟨3⟩, sentinelContext.stage "a" ⟨1⟩, t') ∧
      t'.Accounted (0 + Counts.ofList (sentinelContext.stage "a" ⟨1⟩).held + Counts.ofList [⟨3⟩])) ∧
    ∃ t' : HandleTable,
      (sentinelQuote mistakenCode).run sentinelContext sentinelTable =
        (.error (.native "TypeError: expected int, got list"), sentinelContext, t') ∧
      t'.Accounted (0 + Counts.ofList sentinelContext.held) := by
  constructor
  · obtain ⟨-, -, hresult⟩ := (sentinelQuote handOverCode).run_accounted sentinelTable_accounted
      (show sentinelSlots = _ from rfl) (show sentinelStart = _ from rfl) rfl handOverCode_obeys
    obtain ⟨staged, t', hrun, -, -, haccounted⟩ := hresult ⟨3⟩ rfl
    have hstaged : sentinelContext.stageAll staged = sentinelContext.stage "a" ⟨1⟩ :=
      (congrArg (fun outcome => outcome.2.1) hrun).symm
    rw [hstaged] at hrun haccounted
    exact ⟨t', hrun, haccounted⟩
  · obtain ⟨-, herror, -⟩ := (sentinelQuote mistakenCode).run_accounted sentinelTable_accounted
      (show sentinelSlots = _ from rfl) (show sentinelStart = _ from rfl) rfl mistakenCode_obeys
    obtain ⟨t', hrun, -, -, haccounted⟩ := herror rfl
    have hwords : (Body.ofTable sentinelStart).lastRecorded [.asInt (some ⟨1⟩), .incref (some ⟨1⟩)] =
        some "TypeError: expected int, got list" := rfl
    rw [hwords] at hrun
    exact ⟨t', hrun, haccounted⟩

end Native

end Quasiquote
