import Quasiquote.Scope.Frame

/-!
# What a frame says a name means

A name is looked up in three layers: the slots, the mapping beside them, and the globals. Assignments
and the two copies between slots and mapping change these layers in different places. This file says
what each of them does to the meaning of names, so that no other proof has to open a layer.

## Main Definitions

* `Frame.Sound` — a frame as the host makes and keeps it
* `Frame.Mirrored` — a frame whose mapping holds what its slots hold

## Main Statements

* `Frame.get?_set` — an assignment gives one name its value and changes no other
* `Frame.Sound.get?_fastToLocals` — bringing the mapping up to date changes no name
* `Frame.Mirrored.get?_receive` — what a frame means that was handed bindings

## Design Notes

A mapping is brought up to date only now and then, so it may hold an old value of a bound slot. It may
not hold a value of an unbound one: that value would come to light, and would be lost as soon as the
mapping is brought up to date. `Sound` rules this out.
-/

namespace Quasiquote

namespace Frame

/-! ### Slots -/

variable {f : Frame} {name : String}

theorem keys_slots (f : Frame) : Table.keys f.slots = f.slotNames := rfl

/-- A name without a slot has no object in one. -/
theorem slot?_eq_none (h : name ∉ f.slotNames) : f.slot? name = none := by
  rw [slot?, (Table.get?_eq_none_iff f.slots name).2 h]
  rfl

theorem keys_setSlot (name : String) (value : Ref) (slots : Table String (Option Ref)) :
    Table.keys (setSlot name value slots) = Table.keys slots := by
  induction slots with
  | nil => rfl
  | cons p slots ih =>
    obtain ⟨n, v⟩ := p
    rw [setSlot]
    split
    · rfl
    · simpa [Table.keys] using ih

theorem get?_setSlot (name : String) (value : Ref) (slots : Table String (Option Ref))
    (n : String) :
    Table.get? (setSlot name value slots) n =
      if n = name ∧ name ∈ Table.keys slots then some (some value) else Table.get? slots n := by
  induction slots with
  | nil => simp [setSlot, Table.keys]
  | cons p slots ih =>
    obtain ⟨m, v⟩ := p
    rw [setSlot]
    by_cases hm : m = name
    · subst hm
      by_cases hn : n = m <;> simp [hn, Table.keys]
    · rw [if_neg hm, Table.get?_cons, ih, Table.get?_cons]
      by_cases hn : n = m
      · have hother : ¬ n = name := fun h => hm (hn ▸ h)
        simp [hn, hm]
      · simp [hn, Ne.symm hm]

/-! ### Frames as the host keeps them -/

/-- A frame as the host makes and keeps it. -/
structure Sound (f : Frame) : Prop where
  /-- No two slots have one name. -/
  slots : f.slotNames.Nodup
  /-- The mapping binds a name once. -/
  locals : (Table.keys f.locals).Nodup
  /-- The mapping binds no name whose slot is unbound. -/
  unbound : ∀ n ∈ f.slotNames, f.slot? n = none → Table.get? f.locals n = none
  /-- The frame of a module has only the globals. -/
  module : f.moduleLevel = true → f.slots = [] ∧ f.locals = []

/-- A frame whose mapping holds what its slots hold. -/
def Mirrored (f : Frame) : Prop := ∀ n ∈ f.slotNames, Table.get? f.locals n = f.slot? n

/-- Where the mapping mirrors the slots, it says what they say. -/
theorem Mirrored.get? (h : f.Mirrored) (name : String) :
    f.get? name = (Table.get? f.locals name).or (Table.get? f.globals name) := by
  rw [Frame.get?]
  by_cases hname : name ∈ f.slotNames
  · rw [h name hname, ← Option.or_assoc, Option.or_self]
  · rw [slot?_eq_none hname, Option.none_or]

/-! ### Assignments -/

/-- An assignment changes a slot, the mapping or the globals. -/
theorem set_cases (f : Frame) (name : String) (value : Ref) :
    (name ∈ f.slotNames ∧ f.set name value = { f with slots := setSlot name value f.slots }) ∨
    (name ∉ f.slotNames ∧ f.moduleLevel = true ∧
      f.set name value = { f with globals := f.globals.insert name value }) ∨
    (name ∉ f.slotNames ∧ f.moduleLevel = false ∧
      f.set name value = { f with locals := f.locals.insert name value }) := by
  unfold set storeLocal setGlobal
  by_cases hname : name ∈ f.slotNames
  · exact .inl ⟨hname, if_pos hname⟩
  · rw [if_neg hname]
    cases hlevel : f.moduleLevel with
    | true => exact .inr (.inl ⟨hname, rfl, rfl⟩)
    | false => exact .inr (.inr ⟨hname, rfl, rfl⟩)

/-- **An assignment gives one name its value and changes no other.** -/
theorem Sound.get?_set (h : f.Sound) (name : String) (value : Ref) (n : String) :
    (f.set name value).get? n = if n = name then some value else f.get? n := by
  rcases f.set_cases name value with ⟨hname, heq⟩ | ⟨hname, hlevel, heq⟩ | ⟨hname, -, heq⟩
  · rw [heq, Frame.get?, Frame.get?, slot?, slot?, get?_setSlot]
    by_cases hn : n = name
    · rw [if_pos ⟨hn, hname⟩, if_pos hn]
      rfl
    · rw [if_neg fun hboth => hn hboth.1, if_neg hn]
  · obtain ⟨hslots, hlocals⟩ := h.module hlevel
    rw [heq, Frame.get?, Frame.get?, slot?, slot?, hslots, hlocals, Table.get?_insert]
    rfl
  · rw [heq, Frame.get?, Frame.get?, Table.get?_insert]
    by_cases hn : n = name
    · rw [if_pos hn, if_pos hn, hn]
      show (f.slot? name).or _ = _
      rw [slot?_eq_none hname]
      rfl
    · rw [if_neg hn, if_neg hn]
      rfl

theorem Sound.set (h : f.Sound) (name : String) (value : Ref) : (f.set name value).Sound := by
  rcases f.set_cases name value with ⟨hname, heq⟩ | ⟨-, -, heq⟩ | ⟨hname, hlevel, heq⟩
  · have hnames : ({ f with slots := setSlot name value f.slots } : Frame).slotNames =
        f.slotNames := keys_setSlot name value f.slots
    rw [heq]
    refine ⟨hnames ▸ h.slots, h.locals, fun n hn hnone => ?_, fun hlevel => ?_⟩
    · rw [slot?, get?_setSlot] at hnone
      split at hnone
      · exact absurd hnone (Option.some_ne_none value)
      · exact h.unbound n (hnames ▸ hn) hnone
    · have hempty := (h.module hlevel).1
      rw [slotNames, hempty] at hname
      exact absurd hname List.not_mem_nil
  · rw [heq]
    exact ⟨h.slots, h.locals, h.unbound, h.module⟩
  · rw [heq]
    refine ⟨h.slots, Table.nodup_insert h.locals name value, fun n hn hnone => ?_, fun hmodule => ?_⟩
    · rw [Table.get?_insert, if_neg (ne_of_mem_of_not_mem hn hname)]
      exact h.unbound n hn hnone
    · exact absurd (hlevel.symm.trans hmodule) Bool.false_ne_true

theorem Sound.setGlobal (h : f.Sound) (name : String) (value : Ref) :
    (f.setGlobal name value).Sound :=
  ⟨h.slots, h.locals, h.unbound, h.module⟩

/-- Assignments, one after another. -/
def setAll (f : Frame) (made : Bindings) : Frame := made.foldl (fun f p => f.set p.1 p.2) f

@[simp] theorem setAll_nil (f : Frame) : f.setAll [] = f := rfl

theorem setAll_append (f : Frame) (a b : Bindings) : f.setAll (a ++ b) = (f.setAll a).setAll b :=
  List.foldl_append

theorem Sound.setAll (h : f.Sound) (made : Bindings) : (f.setAll made).Sound := by
  induction made generalizing f with
  | nil => exact h
  | cons p made ih => exact ih (h.set p.1 p.2)

/-- After some assignments a name has the last value that it was given. -/
theorem Sound.get?_setAll (h : f.Sound) (made : Bindings) (n : String) :
    (f.setAll made).get? n = (Table.last? made n).or (f.get? n) := by
  induction made generalizing f with
  | nil => rfl
  | cons p made ih =>
    obtain ⟨k, v⟩ := p
    show ((f.set k v).setAll made).get? n = _
    rw [ih (h.set k v), h.get?_set, Table.last?_cons, Option.or_assoc]
    split <;> rfl

/-! ### Copies between slots and mapping -/

/-- A mapping into which a slot was copied. -/
def copySlot (b : Bindings) (name : String) : Option Ref → Bindings
  | some value => b.insert name value
  | none => b.erase name

/-- A mapping into which slots were copied, one after another. -/
def copySlots : Table String (Option Ref) → Bindings → Bindings
  | [], b => b
  | (name, slot) :: slots, b => copySlots slots (copySlot b name slot)

theorem fastToLocals_eq (f : Frame) :
    f.fastToLocals = { f with locals := copySlots f.slots f.locals } := by
  have hcopy (slots : Table String (Option Ref)) (b : Bindings) :
      slots.foldl
        (fun (b : Bindings) slot =>
          match slot.2 with
          | some value => b.insert slot.1 value
          | none => b.erase slot.1) b = copySlots slots b := by
    induction slots generalizing b with
    | nil => rfl
    | cons p slots ih =>
      obtain ⟨name, _ | value⟩ := p
      · exact ih _
      · exact ih _
  exact congrArg (fun b => { f with locals := b }) (hcopy f.slots f.locals)

theorem get?_copySlot (b : Bindings) (name : String) (slot : Option Ref) (n : String) :
    Table.get? (copySlot b name slot) n = if n = name then slot else Table.get? b n := by
  cases slot with
  | none => exact Table.get?_erase b name n
  | some value => exact Table.get?_insert b name value n

/-- The copy of a slot says what the slot holds, and no other name changed. -/
theorem get?_copySlots {slots : Table String (Option Ref)} (h : (Table.keys slots).Nodup)
    (b : Bindings) (n : String) :
    Table.get? (copySlots slots b) n =
      if n ∈ Table.keys slots then (Table.get? slots n).join else Table.get? b n := by
  induction slots generalizing b with
  | nil => rfl
  | cons p slots ih =>
    obtain ⟨m, v⟩ := p
    obtain ⟨hm, hslots⟩ := Table.nodup_keys_cons.1 h
    rw [copySlots, ih hslots, get?_copySlot, Table.get?_cons]
    by_cases hn : n = m
    · -- no later slot has the name of this one
      subst hn
      rw [if_neg hm, if_pos rfl, Table.keys_cons, if_pos List.mem_cons_self, if_pos rfl]
      rfl
    · simp [hn]

theorem nodup_copySlots (slots : Table String (Option Ref)) {b : Bindings}
    (h : (Table.keys b).Nodup) : (Table.keys (copySlots slots b)).Nodup := by
  induction slots generalizing b with
  | nil => exact h
  | cons p slots ih =>
    obtain ⟨name, _ | value⟩ := p
    · exact ih (Table.nodup_erase h name)
    · exact ih (Table.nodup_insert h name value)

/-- A mapping that was brought up to date mirrors the slots. -/
theorem mirrored_fastToLocals (h : f.slotNames.Nodup) : f.fastToLocals.Mirrored := by
  rw [fastToLocals_eq]
  intro n hn
  show Table.get? (copySlots f.slots f.locals) n = f.slot? n
  rw [get?_copySlots h]
  exact if_pos hn

/-- **Bringing the mapping up to date changes no name.** -/
theorem Sound.get?_fastToLocals (h : f.Sound) (n : String) :
    f.fastToLocals.get? n = f.get? n := by
  rw [(mirrored_fastToLocals h.slots).get?, Frame.get?, fastToLocals_eq]
  show (Table.get? (copySlots f.slots f.locals) n).or (Table.get? f.globals n) = _
  rw [get?_copySlots h.slots, keys_slots]
  by_cases hn : n ∈ f.slotNames
  · rw [if_pos hn]
    show (f.slot? n).or _ = _
    cases hslot : f.slot? n with
    | none =>
      rw [h.unbound n hn hslot]
      rfl
    | some value => rfl
  · rw [if_neg hn, slot?_eq_none hn, Option.none_or]

theorem Sound.fastToLocals (h : f.Sound) : f.fastToLocals.Sound := by
  have hmirrored := mirrored_fastToLocals h.slots
  rw [fastToLocals_eq] at hmirrored ⊢
  refine ⟨h.slots, nodup_copySlots f.slots h.locals, fun n hn hnone => (hmirrored n hn).trans hnone,
    fun hlevel => ?_⟩
  obtain ⟨hslots, hlocals⟩ := h.module hlevel
  refine ⟨hslots, ?_⟩
  rw [hslots]
  exact hlocals

theorem slotNames_localsToFast (f : Frame) : f.localsToFast.slotNames = f.slotNames := by
  simp [localsToFast, slotNames]

theorem slot?_localsToFast (f : Frame) {n : String} (hn : n ∈ f.slotNames) :
    f.localsToFast.slot? n = (Table.get? f.locals n).or (f.slot? n) := by
  have hget (slots : Table String (Option Ref)) (hn : n ∈ Table.keys slots) :
      Table.get? (slots.map fun slot => (slot.1, (f.locals.get? slot.1).or slot.2)) n =
        some ((f.locals.get? n).or (Table.get? slots n).join) := by
    induction slots with
    | nil => exact absurd hn List.not_mem_nil
    | cons p slots ih =>
      obtain ⟨m, v⟩ := p
      rw [List.map_cons, Table.get?_cons, Table.get?_cons]
      split
      · next h =>
        subst h
        rfl
      · next h => exact ih ((List.mem_cons.1 hn).resolve_left h)
  show (Table.get? (f.slots.map _) n).join = _
  rw [hget f.slots hn]
  rfl

/-! ### Handing bindings to a frame -/

/-- The frame to whose mapping some bindings were handed, with its slots brought up to date. -/
def receive (f : Frame) (made : Bindings) : Frame :=
  (made.foldl (fun f p => f.storeLocal p.1 p.2) f).localsToFast

/-- The bindings go to the globals of a module and to the mapping of a function. -/
theorem storeLocals_eq (f : Frame) (made : Bindings) :
    made.foldl (fun f p => f.storeLocal p.1 p.2) f =
      if f.moduleLevel then { f with globals := f.globals.insertAll made }
      else { f with locals := f.locals.insertAll made } := by
  induction made generalizing f with
  | nil => split <;> rfl
  | cons p made ih =>
    rw [List.foldl_cons, ih, storeLocal, setGlobal]
    cases f.moduleLevel <;> simp

theorem Mirrored.receive (h : f.Mirrored) (made : Bindings) : (f.receive made).Mirrored := by
  intro n hn
  rw [Frame.receive, slotNames_localsToFast] at hn
  rw [Frame.receive, slot?_localsToFast _ hn]
  -- what the mapping does not bind was unbound in its slot before
  show Table.get? (made.foldl _ f).locals n = _
  rw [storeLocals_eq] at hn ⊢
  cases hlevel : f.moduleLevel with
  | true =>
    rw [hlevel] at hn
    show Table.get? f.locals n = (Table.get? f.locals n).or (f.slot? n)
    rw [h n hn, Option.or_self]
  | false =>
    rw [hlevel] at hn
    show Table.get? (f.locals.insertAll made) n =
      (Table.get? (f.locals.insertAll made) n).or (f.slot? n)
    rw [Table.get?_insertAll, h n hn, Option.or_assoc, Option.or_self]

/-- **A frame that was handed bindings** gives each of their names its last value and changes no
other name. -/
theorem Mirrored.get?_receive (h : f.Mirrored) (hsound : f.Sound) (made : Bindings) (n : String) :
    (f.receive made).get? n = (Table.last? made n).or (f.get? n) := by
  rw [(h.receive made).get?, h.get?]
  show (Table.get? (made.foldl _ f).locals n).or (Table.get? (made.foldl _ f).globals n) = _
  rw [storeLocals_eq]
  split
  · next hlevel =>
    rw [(hsound.module hlevel).2, Table.get?_insertAll]
    rfl
  · rw [Table.get?_insertAll, Option.or_assoc]

/-- The globals of a function are not touched. -/
theorem globals_receive (hlevel : f.moduleLevel = false) (made : Bindings) :
    (f.receive made).globals = f.globals := by
  show (made.foldl _ f).globals = _
  rw [storeLocals_eq, hlevel]
  rfl

theorem nodup_locals_receive (h : (Table.keys f.locals).Nodup) (made : Bindings) :
    (Table.keys (f.receive made).locals).Nodup := by
  show (Table.keys (made.foldl _ f).locals).Nodup
  rw [storeLocals_eq]
  split
  · exact h
  · exact Table.nodup_insertAll h made

theorem slotNames_receive (f : Frame) (made : Bindings) :
    (f.receive made).slotNames = f.slotNames := by
  rw [receive, slotNames_localsToFast, storeLocals_eq]
  split <;> rfl

theorem moduleLevel_receive (f : Frame) (made : Bindings) :
    (f.receive made).moduleLevel = f.moduleLevel := by
  show (made.foldl _ f).moduleLevel = _
  rw [storeLocals_eq]
  split <;> rfl

theorem Mirrored.sound_receive (h : f.Mirrored) (hsound : f.Sound) (made : Bindings) :
    (f.receive made).Sound := by
  refine ⟨slotNames_receive f made ▸ hsound.slots, nodup_locals_receive hsound.locals made,
    fun n hn hnone => (h.receive made n hn).trans hnone, fun hlevel => ?_⟩
  rw [moduleLevel_receive] at hlevel
  obtain ⟨hslots, hlocals⟩ := hsound.module hlevel
  have hempty : (f.receive made).slots.map Prod.fst = [] := by
    show (f.receive made).slotNames = []
    rw [slotNames_receive, slotNames, hslots]
    rfl
  refine ⟨List.map_eq_nil_iff.1 hempty, ?_⟩
  show (made.foldl _ f).locals = []
  rw [storeLocals_eq, if_pos hlevel]
  exact hlocals

end Frame

end Quasiquote
