import Quasiquote.Native.Calls
import Quasiquote.Proofs.Native.Releasing

/-!
# References are conserved

Every reference to an object is the host's, one that a live object holds, or one that the body owns. Each
call of the function table keeps it so.

## Main Definitions

* `Native.Body.Accounted` — all references to all objects are accounted for
* `Native.Body.Allows` — the calls that a body may make
* `Native.Body.Effect` — what a call can do to a body
* `Native.Body.Conserves` — what a call has to do to references

## Main Statements

* `Native.Body.Allows.effect` — what a call can do
* `Native.Body.Effect.accounted`, `Native.Body.Effect.losesExactly` — what it does keeps the account, and
  frees what loses its last reference
* `Native.Body.references_conserved` — so it is along every run of calls
-/

namespace Quasiquote.Native

/-! ### Calls -/

/-- The objects whose handles are passed. -/
def Call.passed : Call → List Ref
  | .incref handle | .decref handle | .isNone handle | .asInt handle | .asFloat handle
  | .strData handle | .listLen handle | .listGet handle _ => handle.toList
  | .listSet handle _ item => handle.toList ++ item.toList
  | _ => []

/-- The reference that is given up. -/
def Call.given : Call → Handle
  | .decref handle => handle
  | .listSet _ _ item => item
  | _ => none

/-- Whether a call only looks. -/
def Call.looks : Call → Bool
  | .isNone _ | .asInt _ | .asFloat _ | .strData _ | .listLen _ | .listGet _ _ => true
  | _ => false

namespace HandleTable

/-- **What becomes of a new item:** it takes the place of another one, which is released, or it is released
itself, and at most an error is recorded. -/
theorem listSet_cases (t : HandleTable) (handle : Handle) (index : Nat) (new : Ref) :
    (∃ r items old, handle = some r ∧ t.heap.get r = .list items ∧ items[index]? = some old ∧
      t.listSet handle index (some new) =
        (true, { t with heap := t.heap.put r (.list (items.set index new)) }.release old)) ∨
    ((handle.bind fun r => t.heap.setItem? r index new) = none ∧ ∃ error,
      t.listSet handle index (some new) = (false, HandleTable.release { t with error } new)) := by
  cases handle with
  | none => exact .inr ⟨rfl, t.failNull.error, rfl⟩
  | some r =>
    cases hitems : t.heap.items? r with
    | none =>
      have hset : t.heap.setItem? r index new = none := by simp [Heap.setItem?, hitems]
      refine .inr ⟨hset, (t.failType "list" r).error, ?_⟩
      simp only [listSet, hitems]
      rfl
    | some items =>
      have hget : t.heap.get r = .list items := by
        rw [Heap.items?] at hitems
        cases hobject : t.heap.get r <;> simp_all [Object.items?]
      cases hold : items[index]? with
      | none =>
        have hset : t.heap.setItem? r index new = none := by simp [Heap.setItem?, hitems, hold]
        refine .inr ⟨hset, (t.failIndex index items.length).error, ?_⟩
        simp only [listSet, hitems, hset]
        rfl
      | some old =>
        refine .inl ⟨r, items, old, rfl, hget, hold, ?_⟩
        simp only [listSet, hitems, Heap.setItem?, hold, Option.map_some]

end HandleTable

namespace Body

variable {host : Counts} {b : Body} {call : Call}

/-- **All references are accounted for:** those of the host, those that live objects hold, and those that
the body owns. There are none to anything outside the heap. -/
structure Accounted (host : Counts) (b : Body) : Prop where
  balance : ∀ r, b.table.counts r = host r + b.table.counts.slots b.table.heap r + b.owned r
  within : ∀ r, b.table.heap.size ≤ r.index → b.table.counts r = 0

/-- **The calls that a body may make:** it passes nothing or live objects, and gives up only references that
it owns. -/
structure Allows (b : Body) (call : Call) : Prop where
  live : ∀ r ∈ call.passed, b.table.counts r ≠ 0
  owned : ∀ r ∈ call.given, b.owned r ≠ 0

/-- The objects that a call frees, in their order. -/
def frees (b : Body) : Call → List Ref
  | .decref (some r) => freed b.table.heap b.table.counts [r]
  -- the object that would have been the item of the list
  | .listNew 0 => [⟨b.table.heap.size⟩]
  | .listSet handle index (some new) =>
    match handle.bind fun r => b.table.heap.setItem? r index new with
    | some (old, heap) => freed heap b.table.counts [old]
    | none => freed b.table.heap b.table.counts [new]
  | _ => []

/-- **What only looks** changes neither objects nor references. It may record an error. -/
theorem step_of_looks (b : Body) (hcall : call.looks = true) :
    ∃ t : HandleTable, (b.step call).2 = b.withTable t ∧ t.heap = b.table.heap ∧
      t.counts = b.table.counts ∧ (b.step call).1 ≠ .refused := by
  cases call with
  | isNone handle => cases handle <;> exact ⟨_, rfl, rfl, rfl, nofun⟩
  | asInt handle | asFloat handle | strData handle | listLen handle =>
    cases handle with
    | none => exact ⟨_, rfl, rfl, rfl, nofun⟩
    | some r =>
      simp only [Body.step, looking, HandleTable.asInt, HandleTable.asFloat, HandleTable.strData,
        HandleTable.listLen]
      split
      · exact ⟨_, rfl, rfl, rfl, nofun⟩
      · exact ⟨_, rfl, rfl, rfl, nofun⟩
  | listGet handle index =>
    cases handle with
    | none => exact ⟨_, rfl, rfl, rfl, nofun⟩
    | some r =>
      simp only [Body.step, looking, HandleTable.listGet]
      split
      · exact ⟨_, rfl, rfl, rfl, nofun⟩
      · split
        · exact ⟨_, rfl, rfl, rfl, nofun⟩
        · exact ⟨_, rfl, rfl, rfl, nofun⟩
  | _ => cases hcall

namespace Accounted

/-- The account with everything that no object holds counted as outside. -/
theorem balanced (h : b.Accounted host) :
    Balanced (host + b.owned) b.table.heap b.table.counts [] := by
  intro r
  have hr := h.balance r
  rw [List.count_nil, Pi.add_apply]
  omega

theorem of_balanced (hc : Balanced (host + b.owned) b.table.heap b.table.counts [])
    (hwithin : ∀ r, b.table.heap.size ≤ r.index → b.table.counts r = 0) : b.Accounted host where
  balance r := by
    have hr := hc r
    rw [List.count_nil, Pi.add_apply] at hr
    omega
  within := hwithin

/-- A recorded error is no reference. -/
theorem withTable (h : b.Accounted host) {t : HandleTable} (hheap : t.heap = b.table.heap)
    (hcounts : t.counts = b.table.counts) : (b.withTable t).Accounted host where
  balance r := by
    show t.counts r = _ + t.counts.slots t.heap r + _
    rw [hheap, hcounts]
    exact h.balance r
  within r hr := by
    show t.counts r = 0
    rw [hcounts]
    exact h.within r (hheap ▸ hr)

/-- **A new object** belongs to the body, with all that it is made of. -/
theorem making {t : HandleTable} {o : Object} (hc : Balanced (host + b.owned) t.heap t.counts o.held)
    (hwithin : ∀ r, t.heap.size ≤ r.index → t.counts r = 0) : (b.making (t.make o)).2.Accounted host := by
  have hfresh : t.counts (t.heap.alloc o).1 = 0 := hwithin _ (Nat.le_refl _)
  refine of_balanced ?_ fun r hr => ?_
  · have houtside : host + b.owned.retain (t.heap.alloc o).1 =
        (host + b.owned).set (t.heap.alloc o).1 1 := by
      have hnone := hc (t.heap.alloc o).1
      funext s
      rw [Pi.add_apply] at hnone
      by_cases heq : s = (t.heap.alloc o).1
      · rw [heq, Pi.add_apply, Counts.retain, Counts.set_self, Counts.set_self]
        omega
      · rw [Pi.add_apply, Counts.retain, Counts.set_of_ne _ _ heq, Counts.set_of_ne _ _ heq, Pi.add_apply]
    show Balanced (host + b.owned.retain (t.heap.alloc o).1) _ _ _
    rw [houtside]
    exact hc.alloc hfresh (by simp)
  · have hlt : t.heap.size < r.index := (Heap.size_alloc t.heap o ▸ hr : t.heap.size + 1 ≤ r.index)
    exact (t.counts.set_alloc (Nat.ne_of_gt hlt) o 1).trans (hwithin r (Nat.le_of_lt hlt))

theorem make (h : b.Accounted host) {o : Object} (ho : o.held = []) :
    (b.making (b.table.make o)).2.Accounted host :=
  making (ho ▸ h.balanced) h.within

/-- **A new list:** the references to its item are its own. -/
theorem listNew (h : b.Accounted host) (length : Nat) :
    (b.making (b.table.listNew length)).2.Accounted host := by
  let item := (b.table.heap.alloc .none).1
  have hfresh : b.table.counts item = 0 := h.within _ (Nat.le_refl _)
  have hcounts : (b.table.counts.set item 1).set item length = b.table.counts.set item length := by
    funext s
    simp only [Counts.set]
    split <;> rfl
  have hitem : Balanced ((host + b.owned).set item length) (b.table.heap.alloc .none).2
      (b.table.counts.set item length) [] :=
    h.balanced.alloc (o := .none) hfresh fun _ => rfl
  have hnone : (host + b.owned) item = 0 := by
    have hbalance := h.balance item
    rw [Pi.add_apply]
    omega
  rw [← hcounts] at hitem
  refine making (hitem.handOver hnone) fun r hr => ?_
  show (b.table.counts.set item 1).set item length r = 0
  have hlt : b.table.heap.size < r.index := (Heap.size_alloc b.table.heap .none ▸ hr : _ + 1 ≤ r.index)
  rw [hcounts]
  exact (b.table.counts.set_alloc (Nat.ne_of_gt hlt) .none length).trans (h.within r (Nat.le_of_lt hlt))

/-- A reference that the body is about to give up is no longer its own. -/
theorem given (h : b.Accounted host) {r : Ref} (hr : b.owned r ≠ 0) :
    Balanced (host + (b.lose r).owned) b.table.heap b.table.counts [r] := by
  intro s
  have hs := h.balance s
  have hpred := Counts.set_pred hr s
  rw [Pi.add_apply]
  show _ = host s + b.owned.set r (b.owned r - 1) s + _ + _
  omega

/-- A reference that the body owns goes into a list, and the one in its place is to be given up. -/
theorem replaced (h : b.Accounted host) {r new old : Ref} {items : List Ref} {index : Nat}
    (hnew : b.owned new ≠ 0) (hlive : b.table.counts r ≠ 0) (hget : b.table.heap.get r = .list items)
    (hold : items[index]? = some old) :
    Balanced (host + (b.lose new).owned) (b.table.heap.put r (.list (items.set index new))) b.table.counts
      [old] := by
  intro s
  have hs := h.given hnew s
  have hput := Counts.slots_put new hget hlive hold s
  omega

/-- What is to be given up is given up. -/
theorem release {heap : Heap} {counts : Counts} {r s : Ref} {error : Option String}
    (hc : Balanced (host + (b.lose s).owned) heap counts [r])
    (hwithin : ∀ r, heap.size ≤ r.index → counts r = 0) :
    ((b.withTable (HandleTable.release { heap, counts, error } r)).lose s).Accounted host := by
  refine of_balanced (releaseAll_balance hc) fun t ht => ?_
  have hle := releaseAll_le heap counts [r] t
  rw [hwithin t ht] at hle
  exact Nat.le_zero.1 hle

/-- One more reference to a live object. -/
theorem incref (h : b.Accounted host) {r : Ref} (hr : b.table.counts r ≠ 0) :
    ((b.withTable (b.table.retain r)).gain r).Accounted host where
  balance s := by
    have hs := h.balance s
    show b.table.counts.retain r s =
      host s + (b.table.counts.retain r).slots b.table.heap s + b.owned.retain r s
    rw [Counts.slots_retain hr]
    by_cases heq : s = r
    · subst heq
      rw [Counts.retain, Counts.set_self, Counts.retain, Counts.set_self]
      omega
    · rw [Counts.retain, Counts.set_of_ne _ _ heq, Counts.retain, Counts.set_of_ne _ _ heq]
      exact hs
  within s hs := by
    have hnone := h.within s hs
    have hne : s ≠ r := by
      rintro rfl
      exact hr hnone
    show b.table.counts.retain r s = 0
    rw [Counts.retain, Counts.set_of_ne _ _ hne]
    exact hnone

end Accounted

/-! ### Freed objects -/

/-- **These objects are freed from one state to another,** and no others: all that had references or are
new, and have no references now. No object comes back to life. -/
structure LosesExactly (b b' : Body) (gone : List Ref) : Prop where
  nodup : gone.Nodup
  mem_iff : ∀ r, r ∈ gone ↔
    (b.table.counts r ≠ 0 ∨ b.table.heap.size ≤ r.index ∧ r.index < b'.table.heap.size) ∧
      b'.table.counts r = 0
  dead : ∀ r, r.index < b.table.heap.size → b.table.counts r = 0 → b'.table.counts r = 0

/-- What changes no count frees nothing. -/
theorem losesExactly_of_counts {b' : Body} (hsize : b'.table.heap.size = b.table.heap.size)
    (hcounts : b'.table.counts = b.table.counts) : b.LosesExactly b' [] where
  nodup := List.nodup_nil
  mem_iff r := by
    rw [hsize, hcounts]
    simp only [List.not_mem_nil, false_iff, not_and]
    omega
  dead r _ hr := hcounts ▸ hr

/-- Giving up a reference frees what loses its last one. -/
theorem losesExactly_of_release {b' : Body} {outside : Counts} {heap : Heap} {r : Ref}
    (hc : Balanced outside heap b.table.counts [r]) (hsize : b'.table.heap.size = b.table.heap.size)
    (hcounts : b'.table.counts = releaseAll heap b.table.counts [r]) :
    b.LosesExactly b' (freed heap b.table.counts [r]) where
  nodup := nodup_freed hc
  mem_iff s := by
    rw [mem_freed_iff hc, hcounts, hsize]
    refine and_congr_left fun _ => (or_iff_left ?_).symm
    omega
  dead s _ hs := by
    have hle := releaseAll_le heap b.table.counts [r] s
    rw [hs] at hle
    rw [hcounts]
    exact Nat.le_zero.1 hle

/-- A new object has a reference. -/
theorem losesExactly_make (b : Body) (o : Object) : b.LosesExactly (b.making (b.table.make o)).2 [] where
  nodup := List.nodup_nil
  mem_iff r := by
    show r ∈ [] ↔ (_ ∨ _ ∧ r.index < (b.table.heap.alloc o).2.size) ∧
      b.table.counts.set (b.table.heap.alloc o).1 1 r = 0
    rw [Heap.size_alloc]
    simp only [List.not_mem_nil, false_iff, not_and]
    by_cases hr : r = (b.table.heap.alloc o).1
    · rw [hr, Counts.set_self]
      omega
    · have hindex : r.index ≠ b.table.heap.size := fun heq => hr (eq_mk_iff.2 heq)
      rw [Counts.set_of_ne _ _ hr]
      omega
  dead r hlt hr := (b.table.counts.set_alloc (Nat.ne_of_lt hlt) o 1).trans hr

/-- Of the two objects of a new list, its item is freed if it is in no slot. -/
theorem losesExactly_listNew (b : Body) (length : Nat) :
    b.LosesExactly (b.making (b.table.listNew length)).2 (b.frees (.listNew length)) := by
  have hsize : (b.making (b.table.listNew length)).2.table.heap.size = b.table.heap.size + 2 := by
    show ((b.table.heap.alloc _).2.alloc _).2.size = _
    rw [Heap.size_alloc, Heap.size_alloc]
  have hcounts (r : Ref) : (b.making (b.table.listNew length)).2.table.counts r =
      if r.index = b.table.heap.size + 1 then 1
      else if r.index = b.table.heap.size then length else b.table.counts r := by
    have hlast : (b.table.heap.alloc .none).2.objects.size = b.table.heap.size + 1 :=
      Heap.size_alloc b.table.heap .none
    show (((b.table.counts.set ⟨b.table.heap.size⟩ 1).set ⟨b.table.heap.size⟩ length).set
      ⟨(b.table.heap.alloc .none).2.objects.size⟩ 1) r = _
    simp only [Counts.set, eq_mk_iff, hlast]
    split
    · rfl
    · split <;> rfl
  have hmem (r : Ref) : r ∈ b.frees (.listNew length) ↔ length = 0 ∧ r.index = b.table.heap.size := by
    cases length with
    | zero =>
      simp only [frees, List.mem_singleton, true_and, eq_mk_iff]
    | succ length => simp [frees]
  refine ⟨?_, fun r => ?_, fun r hlt hr => ?_⟩
  · cases length <;> simp [frees]
  · rw [hmem, hsize, hcounts]
    split
    · omega
    · split <;> omega
  · rw [hcounts, if_neg (by omega), if_neg (by omega), hr]

/-- One more reference to a live object. -/
theorem losesExactly_retain {r : Ref} (hr : b.table.counts r ≠ 0) :
    b.LosesExactly ((b.withTable (b.table.retain r)).gain r) [] where
  nodup := List.nodup_nil
  mem_iff s := by
    show s ∈ [] ↔ (_ ∨ _ ∧ s.index < b.table.heap.size) ∧ b.table.counts.set r _ s = 0
    simp only [List.not_mem_nil, false_iff, not_and]
    by_cases hs : s = r
    · rw [hs, Counts.set_self]
      omega
    · rw [Counts.set_of_ne _ _ hs]
      omega
  dead s _ hs := by
    have hne : s ≠ r := by
      rintro rfl
      exact hr hs
    show b.table.counts.set r _ s = 0
    rw [Counts.set_of_ne _ _ hne, hs]

/-! ### What a call does -/

/-- **What a call can do to a body,** and which objects it frees. -/
inductive Effect (b : Body) : Body → List Ref → Prop
  /-- At most an error is recorded. -/
  | same {t : HandleTable} : t.heap = b.table.heap → t.counts = b.table.counts → Effect b (b.withTable t) []
  | retained {r : Ref} : b.table.counts r ≠ 0 → Effect b ((b.withTable (b.table.retain r)).gain r) []
  | made {o : Object} : o.held = [] → Effect b (b.making (b.table.make o)).2 []
  | listed (length : Nat) : Effect b (b.making (b.table.listNew length)).2 (b.frees (.listNew length))
  | given {r : Ref} {error : Option String} : b.owned r ≠ 0 →
      Effect b ((b.withTable (HandleTable.release { b.table with error } r)).lose r)
        (freed b.table.heap b.table.counts [r])
  /-- A reference of the body goes into a list, and the one in its place is given up. -/
  | replaced {r new old : Ref} {items : List Ref} {index : Nat} : b.owned new ≠ 0 → b.table.counts r ≠ 0 →
      b.table.heap.get r = .list items → items[index]? = some old →
      Effect b ((b.withTable (HandleTable.release
          { b.table with heap := b.table.heap.put r (.list (items.set index new)) } old)).lose new)
        (freed (b.table.heap.put r (.list (items.set index new))) b.table.counts [old])

/-- The body after a call. -/
def next (b : Body) (call : Call) : Body := (b.step call).2

/-- **A call that may be made** has one of these effects. -/
theorem Allows.effect (hcall : b.Allows call) : b.Effect (b.next call) (b.frees call) := by
  have hlooks {call : Call} (hlooks : call.looks = true) : b.Effect (b.next call) [] := by
    obtain ⟨t, hstep, hheap, hcounts, -⟩ := b.step_of_looks hlooks
    rw [next, hstep]
    exact .same hheap hcounts
  cases call with
  | incref handle =>
    cases handle with
    | none => exact .same (t := b.table) rfl rfl
    | some r => exact .retained (hcall.live r (by simp [Call.passed]))
  | decref handle =>
    cases handle with
    | none => exact .same (t := b.table) rfl rfl
    | some r =>
      have hr := hcall.owned r rfl
      rw [next, step, if_neg hr]
      exact .given hr
  | listSet handle index item =>
    cases item with
    | none => exact .same rfl rfl
    | some new =>
      have hnew := hcall.owned new rfl
      rw [next, step, if_neg hnew, frees]
      rcases b.table.listSet_cases handle index new with
        ⟨r, items, old, rfl, hget, hold, hset⟩ | ⟨hnone, error, hset⟩
      · have hr := hcall.live r (by simp [Call.passed])
        have hfound : (Option.bind (some r) fun r => b.table.heap.setItem? r index new) =
            some (old, b.table.heap.put r (.list (items.set index new))) := by
          simp [Heap.setItem?, Heap.items?, hget, Object.items?, hold]
        rw [hset, hfound]
        exact .replaced hnew hr hget hold
      · rw [hset, hnone]
        exact .given hnew
  | makeNone | fromInt _ | fromFloat _ | fromBytes _ => exact .made rfl
  | fromNothing length =>
    by_cases hlength : length = 0
    · have hmade : b.next (.fromNothing length) = (b.making (b.table.make (.str ""))).2 := by
        simp only [next, step, HandleTable.fromNothing, if_pos hlength]
      rw [hmade]
      exact .made rfl
    · have hfailed : b.next (.fromNothing length) =
          b.withTable (b.table.fail "SystemError: NULL string data") := by
        simp only [next, step, HandleTable.fromNothing, if_neg hlength]
      rw [hfailed]
      exact .same rfl rfl
  | listNew length => exact .listed length
  | isNone _ => exact hlooks rfl
  | asInt _ => exact hlooks rfl
  | asFloat _ => exact hlooks rfl
  | strData _ => exact hlooks rfl
  | listLen _ => exact hlooks rfl
  | listGet _ _ => exact hlooks rfl
  | raise _ | raiseNothing | takeError => exact .same rfl rfl

namespace Effect

variable {b' : Body} {gone : List Ref}

/-- **A call keeps the account.** -/
theorem accounted (he : b.Effect b' gone) (h : b.Accounted host) : b'.Accounted host := by
  cases he with
  | same hheap hcounts => exact h.withTable hheap hcounts
  | retained hr => exact h.incref hr
  | made ho => exact h.make ho
  | listed length => exact h.listNew length
  | given hr => exact .release (h.given hr) h.within
  | replaced hnew hr hget hold => exact .release (h.replaced hnew hr hget hold) (by simpa using h.within)

/-- **A call frees what loses its last reference.** -/
theorem losesExactly (he : b.Effect b' gone) (h : b.Accounted host) : b.LosesExactly b' gone := by
  cases he with
  | same hheap hcounts => exact losesExactly_of_counts (congrArg Heap.size hheap) hcounts
  | retained hr => exact losesExactly_retain hr
  | made _ => exact b.losesExactly_make _
  | listed length => exact b.losesExactly_listNew length
  | given hr => exact losesExactly_of_release (h.given hr) rfl rfl
  | replaced hnew hr hget hold =>
    exact losesExactly_of_release (h.replaced hnew hr hget hold) (Heap.size_put _ _ _) rfl

end Effect

/-- **What a call does to references.** -/
structure Conserves (b : Body) (call : Call) : Prop where
  /-- The call is made. -/
  made : (b.step call).1 ≠ .refused
  /-- What only looks changes no object and no reference. -/
  looks : call.looks = true → (b.next call).table.heap = b.table.heap ∧
    (b.next call).table.counts = b.table.counts ∧ (b.next call).owned = b.owned
  /-- Without a new item, setting an item changes nothing either. -/
  missing : ∀ handle index, call = .listSet handle index none → (b.step call).1 = .success false ∧
    (b.next call).table.heap = b.table.heap ∧ (b.next call).table.counts = b.table.counts ∧
      (b.next call).owned = b.owned
  /-- The reference of a new item is taken over in any case. -/
  takes : ∀ handle index new, call = .listSet handle index (some new) →
    (∃ done, (b.step call).1 = .success done) ∧ (b.next call).owned = b.owned.set new (b.owned new - 1)
  /-- Where it succeeds, the new item takes the place of another one, which is released. -/
  replaces : ∀ handle index new, call = .listSet handle index (some new) →
    (b.step call).1 = .success true → ∃ r items old, handle = some r ∧ b.table.heap.get r = .list items ∧
      items[index]? = some old ∧
        (b.next call).table.heap = b.table.heap.put r (.list (items.set index new)) ∧
          (b.next call).table.counts old + 1 = b.table.counts old
  /-- Where it fails, no list changes, and the new item is released. -/
  rejects : ∀ handle index new, call = .listSet handle index (some new) →
    (b.step call).1 = .success false → (b.next call).table.heap = b.table.heap ∧
      (b.next call).table.counts new + 1 = b.table.counts new
  /-- What is freed is what loses its last reference. -/
  frees : b.LosesExactly (b.next call) (b.frees call)

/-- No call that may be made is refused. -/
theorem Allows.step_ne_refused (hcall : b.Allows call) : (b.step call).1 ≠ .refused := by
  have hlooks {call : Call} (hlooks : call.looks = true) : (b.step call).1 ≠ .refused := by
    obtain ⟨_, -, -, -, hmade⟩ := b.step_of_looks hlooks
    exact hmade
  cases call with
  | incref handle => cases handle <;> exact nofun
  | decref handle =>
    cases handle with
    | none => exact nofun
    | some r =>
      rw [step, if_neg (hcall.owned r rfl)]
      exact nofun
  | listSet handle index item =>
    cases item with
    | none => exact nofun
    | some new =>
      rw [step, if_neg (hcall.owned new rfl)]
      exact nofun
  | fromNothing length =>
    by_cases hlength : length = 0
    · simp [step, HandleTable.fromNothing, hlength, making]
    · simp [step, HandleTable.fromNothing, hlength]
  | isNone _ => exact hlooks rfl
  | asInt _ => exact hlooks rfl
  | asFloat _ => exact hlooks rfl
  | strData _ => exact hlooks rfl
  | listLen _ => exact hlooks rfl
  | listGet _ _ => exact hlooks rfl
  | _ => exact nofun

theorem Accounted.conserves (h : b.Accounted host) (hcall : b.Allows call) : b.Conserves call where
  made := hcall.step_ne_refused
  looks hlooks := by
    obtain ⟨t, hstep, hheap, hcounts, -⟩ := b.step_of_looks hlooks
    rw [next, hstep]
    exact ⟨hheap, hcounts, rfl⟩
  missing := by
    rintro handle index rfl
    exact ⟨rfl, rfl, rfl, rfl⟩
  takes := by
    rintro handle index new rfl
    have hnew := hcall.owned new rfl
    rw [next, step, if_neg hnew]
    exact ⟨⟨_, rfl⟩, rfl⟩
  replaces := by
    rintro handle index new rfl hdone
    have hnew := hcall.owned new rfl
    rw [step, if_neg hnew] at hdone
    rw [next, step, if_neg hnew]
    rcases b.table.listSet_cases handle index new with
      ⟨r, items, old, rfl, hget, hold, hset⟩ | ⟨-, error, hset⟩
    · have hr := hcall.live r (by simp [Call.passed])
      rw [hset]
      exact ⟨r, items, old, rfl, hget, hold, rfl, releaseAll_self (h.replaced hnew hr hget hold)⟩
    · rw [hset] at hdone
      cases hdone
  rejects := by
    rintro handle index new rfl hdone
    have hnew := hcall.owned new rfl
    rw [step, if_neg hnew] at hdone
    rw [next, step, if_neg hnew]
    rcases b.table.listSet_cases handle index new with
      ⟨r, items, old, rfl, hget, hold, hset⟩ | ⟨-, error, hset⟩
    · rw [hset] at hdone
      cases hdone
    · rw [hset]
      exact ⟨rfl, releaseAll_self (h.given hnew)⟩
  frees := hcall.effect.losesExactly h

/-! ### Runs of calls -/

/-- The body after some calls. -/
def run (b : Body) (calls : List Call) : Body := calls.foldl next b

/-- Calls each of which may be made when its turn comes. -/
def Lawful (b : Body) : List Call → Prop
  | [] => True
  | call :: rest => b.Allows call ∧ (b.next call).Lawful rest

theorem Lawful.accounted {calls : List Call} (hcalls : b.Lawful calls) (h : b.Accounted host) :
    (b.run calls).Accounted host := by
  induction calls generalizing b with
  | nil => exact h
  | cons call calls ih => exact ih hcalls.2 (hcalls.1.effect.accounted h)

theorem Lawful.of_append {front rest : List Call} (hcalls : b.Lawful (front ++ rest)) :
    b.Lawful front ∧ (b.run front).Lawful rest := by
  induction front generalizing b with
  | nil => exact ⟨trivial, hcalls⟩
  | cons call front ih =>
    obtain ⟨hfront, hrest⟩ := ih hcalls.2
    exact ⟨⟨hcalls.1, hfront⟩, hrest⟩

/-- **References are conserved.** Over every run of calls each of which may be made, all references to all
objects are accounted for after every call, and every call does to references what it is to do. -/
theorem references_conserved (h : b.Accounted host) {calls : List Call} (hcalls : b.Lawful calls) :
    ∀ front call rest, calls = front ++ call :: rest →
      (b.run front).Conserves call ∧ (b.run (front ++ [call])).Accounted host := by
  rintro front call rest rfl
  obtain ⟨hfront, hcall, -⟩ := hcalls.of_append
  have hbefore := hfront.accounted h
  have hafter : b.run (front ++ [call]) = (b.run front).next call := by
    rw [run, List.foldl_append]
    rfl
  rw [hafter]
  exact ⟨hbefore.conserves hcall, hcall.effect.accounted hbefore⟩

/-- A body beside a host that holds a list of none. -/
def guestBody : Body :=
  .ofTable (.ofHeap ⟨#[.list [⟨1⟩], .none]⟩ fun r => if r.index < 2 then 1 else 0)

/-- The host's only reference. -/
def guestHost : Counts := Counts.set (fun _ => 0) ⟨0⟩ 1

/-- An integer goes into the host's list, from where the none object goes; then it is borrowed, held, and
given up again. -/
def guestCalls : List Call :=
  [.fromInt 7, .listSet (some ⟨0⟩) 0 (some ⟨2⟩), .listGet (some ⟨0⟩) 0, .incref (some ⟨2⟩),
    .decref (some ⟨2⟩)]

theorem guestBody_accounted : guestBody.Accounted guestHost where
  balance r := by
    obtain ⟨_ | _ | i⟩ := r <;>
      simp [guestBody, ofTable, HandleTable.ofHeap, Counts.slots, Heap.size, Finset.sum_range_succ, guestHost,
        Counts.set, Heap.get, Object.held]
  within r hr := by
    have hlt : 2 ≤ r.index := hr
    exact if_neg (by omega)

theorem guestCalls_lawful : guestBody.Lawful guestCalls := by
  refine ⟨⟨?_, ?_⟩, ⟨?_, ?_⟩, ⟨?_, ?_⟩, ⟨?_, ?_⟩, ⟨?_, ?_⟩, trivial⟩ <;>
    simp [guestBody, ofTable, HandleTable.ofHeap, Call.passed, Call.given, next, step, making, looking,
      withTable, gain, lose, HandleTable.make, HandleTable.listSet, HandleTable.listGet, HandleTable.incref,
      HandleTable.retain, HandleTable.release, releaseAll, Heap.alloc, Heap.get, Heap.put, Heap.items?,
      Heap.setItem?, Object.items?, Object.held, Counts.retain, Counts.set]

/-- After these calls the integer is in the list, and its only reference is there. -/
theorem guestBody_conserves :
    (guestBody.run [.fromInt 7]).Conserves (.listSet (some ⟨0⟩) 0 (some ⟨2⟩)) ∧
      (guestBody.run [.fromInt 7, .listSet (some ⟨0⟩) 0 (some ⟨2⟩)]).Accounted guestHost :=
  references_conserved guestBody_accounted guestCalls_lawful [.fromInt 7] _ _ rfl

end Body

end Quasiquote.Native
