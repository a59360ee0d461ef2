/-!
# Tables

Keys with values, in the order in which the keys were first inserted.

## Main Definitions

* `Table` — a list of keys with their values
* `Table.get?`, `Table.insert`, `Table.erase` — look a key up, give it a value, remove it
* `Table.last?` — the value that a list of insertions gives a key in the end

## Main Statements

* `Table.get?_insert`, `Table.get?_erase`, `Table.get?_insertAll` — what a look-up sees afterwards
* `Table.keys_insert`, `Table.keys_erase` — the keys that there are afterwards
-/

namespace Quasiquote

/-- Keys with their values, in insertion order. -/
abbrev Table (κ α : Type) := List (κ × α)

namespace Table

variable {κ α : Type} [DecidableEq κ]

/-- The value of a key. -/
def get? (t : Table κ α) (key : κ) : Option α :=
  match t with
  | [] => none
  | (k, v) :: rest => if key = k then some v else get? rest key

/-- Give a key a value. A key that is already there keeps its place. -/
def insert (t : Table κ α) (key : κ) (value : α) : Table κ α :=
  match t with
  | [] => [(key, value)]
  | (k, v) :: rest => if k = key then (k, value) :: rest else (k, v) :: insert rest key value

/-- Remove a key. The others keep their order. -/
def erase (t : Table κ α) (key : κ) : Table κ α :=
  match t with
  | [] => []
  | (k, v) :: rest => if k = key then erase rest key else (k, v) :: erase rest key

/-- Insert the entries of another table, one after another. -/
def insertAll (t more : Table κ α) : Table κ α := more.foldl (fun t p => t.insert p.1 p.2) t

/-- The keys, in order. -/
def keys (t : Table κ α) : List κ := t.map Prod.fst

@[simp] theorem get?_nil (key : κ) : get? ([] : Table κ α) key = none := rfl

@[simp] theorem get?_cons (k : κ) (v : α) (rest : Table κ α) (key : κ) :
    get? ((k, v) :: rest) key = if key = k then some v else get? rest key := rfl

@[simp] theorem insertAll_nil (t : Table κ α) : t.insertAll [] = t := rfl

@[simp] theorem insertAll_cons (t : Table κ α) (p : κ × α) (more : Table κ α) :
    t.insertAll (p :: more) = (t.insert p.1 p.2).insertAll more := rfl

/-- A key that was just inserted has its new value, and no other key changed. -/
theorem get?_insert (t : Table κ α) (k : κ) (v : α) (key : κ) :
    (t.insert k v).get? key = if key = k then some v else t.get? key := by
  induction t with
  | nil => rfl
  | cons p rest ih =>
    obtain ⟨m, w⟩ := p
    unfold insert
    split
    · next h => subst h; by_cases hn : key = m <;> simp [hn]
    · next h =>
      rw [get?_cons, ih, get?_cons]
      by_cases hn : key = m
      · subst hn; simp [h]
      · simp [hn]

/-- A key that was removed has no value, and no other key changed. -/
theorem get?_erase (t : Table κ α) (k key : κ) :
    (t.erase k).get? key = if key = k then none else t.get? key := by
  induction t with
  | nil => simp [erase]
  | cons p rest ih =>
    obtain ⟨m, w⟩ := p
    unfold erase
    split
    · next h => subst h; rw [ih]; by_cases hn : key = m <;> simp [hn]
    · next h =>
      rw [get?_cons, ih, get?_cons]
      by_cases hn : key = m
      · subst hn; simp [h]
      · simp [hn]

@[simp] theorem keys_nil {κ α : Type} : keys ([] : Table κ α) = [] := rfl

@[simp] theorem keys_cons {κ α : Type} (p : κ × α) (rest : Table κ α) :
    keys (p :: rest) = p.1 :: keys rest := rfl

theorem nodup_keys_cons {κ α : Type} {k : κ} {v : α} {rest : Table κ α} :
    (keys ((k, v) :: rest)).Nodup ↔ k ∉ keys rest ∧ (keys rest).Nodup := List.nodup_cons

/-- The value that a list of bindings, made one after another, gives a key in the end. -/
def last? (made : Table κ α) (key : κ) : Option α := get? (List.reverse made) key

theorem get?_append (a b : Table κ α) (key : κ) :
    get? (a ++ b) key = (get? a key).or (get? b key) := by
  induction a with
  | nil => rfl
  | cons p a ih =>
    rw [List.cons_append, get?_cons, get?_cons, ih]
    split <;> rfl

@[simp] theorem last?_nil (key : κ) : last? ([] : Table κ α) key = none := rfl

theorem last?_cons (k : κ) (v : α) (rest : Table κ α) (key : κ) :
    last? ((k, v) :: rest) key = (last? rest key).or (if key = k then some v else none) := by
  rw [last?, List.reverse_cons, get?_append]
  rfl

theorem last?_append (a b : Table κ α) (key : κ) :
    last? (a ++ b) key = (last? b key).or (last? a key) := by
  rw [last?, List.reverse_append, get?_append]
  rfl

/-- Bindings that are made one after another: the last one of a key counts. -/
theorem get?_insertAll (t more : Table κ α) (key : κ) :
    get? (insertAll t more) key = (last? more key).or (get? t key) := by
  induction more generalizing t with
  | nil => rfl
  | cons p more ih =>
    obtain ⟨k, v⟩ := p
    rw [insertAll_cons, ih, get?_insert, last?_cons, Option.or_assoc]
    split <;> rfl

theorem get?_eq_none_iff (t : Table κ α) (key : κ) : get? t key = none ↔ key ∉ keys t := by
  induction t with
  | nil => simp
  | cons p t ih =>
    rw [get?_cons, keys_cons, List.mem_cons, not_or]
    split
    · next h => simp [h]
    · next h => simpa [h] using ih

/-- What is found is there. -/
theorem mem_of_get? {t : Table κ α} {key : κ} {v : α} (h : get? t key = some v) : (key, v) ∈ t := by
  induction t with
  | nil => simp at h
  | cons p t ih =>
    rw [get?_cons] at h
    split at h
    · next hkey =>
      cases h
      exact hkey ▸ List.mem_cons_self
    · exact List.mem_cons_of_mem p (ih h)

/-- A value that is inserted takes the place of the one that the key had. -/
theorem perm_insert (t : Table κ α) (k : κ) (v : α) :
    ((insert t k v).map Prod.snd ++ (get? t k).toList).Perm (t.map Prod.snd ++ [v]) := by
  induction t with
  | nil => exact List.Perm.refl _
  | cons p t ih =>
    obtain ⟨m, w⟩ := p
    rw [insert, get?_cons]
    by_cases hm : m = k
    · rw [if_pos hm, if_pos hm.symm]
      exact (List.perm_append_singleton w _).trans ((List.perm_append_singleton v _).symm.cons w)
    · rw [if_neg hm, if_neg (Ne.symm hm)]
      exact ih.cons w

/-- Where each key is bound once, its first value is its last. -/
theorem last?_of_nodup {t : Table κ α} (h : (keys t).Nodup) (key : κ) :
    last? t key = get? t key := by
  induction t with
  | nil => rfl
  | cons p t ih =>
    obtain ⟨k, v⟩ := p
    obtain ⟨hk, ht⟩ := nodup_keys_cons.1 h
    rw [last?_cons, get?_cons, ih ht]
    split
    · next hkey =>
      have hnone : get? t key = none := (get?_eq_none_iff t key).2 (hkey ▸ hk)
      rw [hnone, Option.none_or]
    · rw [Option.or_none]

/-- A key that no insertion names has no value from them. -/
theorem last?_eq_none {made : Table κ α} {key : κ} (h : key ∉ keys made) :
    last? made key = none := by
  rw [last?, get?_eq_none_iff, keys, List.map_reverse, List.mem_reverse]
  exact h

theorem keys_insert (t : Table κ α) (k : κ) (v : α) :
    keys (insert t k v) = if k ∈ keys t then keys t else keys t ++ [k] := by
  induction t with
  | nil => rfl
  | cons p t ih =>
    obtain ⟨m, w⟩ := p
    rw [insert]
    by_cases hm : m = k
    · simp [hm]
    · rw [if_neg hm, keys_cons, ih]
      by_cases hk : k ∈ keys t <;> simp [hk, Ne.symm hm]

theorem nodup_insert {t : Table κ α} (h : (keys t).Nodup) (k : κ) (v : α) :
    (keys (insert t k v)).Nodup := by
  rw [keys_insert]
  split
  · exact h
  · next hk =>
    refine List.nodup_append.2 ⟨h, by simp, ?_⟩
    rintro a ha b hb rfl
    exact hk (List.mem_singleton.1 hb ▸ ha)

theorem nodup_insertAll {t : Table κ α} (h : (keys t).Nodup) (more : Table κ α) :
    (keys (insertAll t more)).Nodup := by
  induction more generalizing t with
  | nil => exact h
  | cons p more ih => exact ih (nodup_insert h p.1 p.2)

theorem insert_insert (t : Table κ α) (k : κ) (v w : α) :
    insert (insert t k v) k w = insert t k w := by
  induction t with
  | nil => simp [insert]
  | cons p t ih =>
    obtain ⟨m, u⟩ := p
    by_cases hm : m = k <;> simp [insert, hm, ih]

/-- A key that was inserted and removed again leaves nothing behind. -/
theorem erase_insert {t : Table κ α} {k : κ} (h : k ∉ keys t) (v : α) : erase (insert t k v) k = t := by
  induction t with
  | nil => simp [insert, erase]
  | cons p t ih =>
    obtain ⟨m, u⟩ := p
    rw [keys_cons, List.mem_cons, not_or] at h
    have hm : m ≠ k := Ne.symm h.1
    simp [insert, erase, hm, ih h.2]

theorem keys_erase (t : Table κ α) (k : κ) : keys (erase t k) = (keys t).filter (· ≠ k) := by
  induction t with
  | nil => rfl
  | cons p t ih =>
    obtain ⟨m, w⟩ := p
    rw [erase, keys_cons, List.filter_cons]
    by_cases hm : m = k
    · simpa [hm] using ih
    · simpa [hm] using ih

theorem nodup_erase {t : Table κ α} (h : (keys t).Nodup) (k : κ) : (keys (erase t k)).Nodup := by
  rw [keys_erase]
  exact h.filter _

/-- Where each key is bound once, looking up is being there. -/
theorem get?_eq_some_iff {t : Table κ α} (h : (keys t).Nodup) (key : κ) (v : α) :
    get? t key = some v ↔ (key, v) ∈ t := by
  induction t with
  | nil => simp
  | cons p t ih =>
    obtain ⟨k, w⟩ := p
    obtain ⟨hk, ht⟩ := nodup_keys_cons.1 h
    rw [get?_cons, List.mem_cons, Prod.mk.injEq]
    split
    · next hkey =>
      subst hkey
      have hnot : (key, v) ∉ t := fun hmem => hk (List.mem_map_of_mem hmem)
      simp [hnot, eq_comm]
    · next hkey => simp [hkey, ih ht]

/-- Where each key is bound once, the order does not matter. -/
theorem get?_of_perm {s t : Table κ α} (h : (keys t).Nodup) (hperm : s.Perm t) (key : κ) :
    get? s key = get? t key := by
  have hs : (keys s).Nodup := (hperm.map Prod.fst).nodup_iff.2 h
  refine Option.ext fun v => ?_
  rw [get?_eq_some_iff hs, get?_eq_some_iff h, hperm.mem_iff]

/-- Removing a key is leaving it out. -/
theorem erase_eq_filter (t : Table κ α) (k : κ) : erase t k = t.filter fun p => p.1 ≠ k := by
  induction t with
  | nil => rfl
  | cons p t ih =>
    rw [erase, List.filter_cons, ih]
    by_cases hk : p.1 = k <;> simp [hk]

/-- Keys that are left out have no value, and no other key changed. -/
theorem get?_filter (p : κ → Bool) (t : Table κ α) (key : κ) :
    get? (t.filter fun q => p q.1) key = if p key then get? t key else none := by
  induction t with
  | nil => simp
  | cons q t ih =>
    obtain ⟨k, v⟩ := q
    rw [List.filter_cons]
    by_cases hk : key = k
    · subst hk
      split
      · simp
      · next hp => simpa [hp] using ih
    · split <;> simp [hk, ih]

end Table

end Quasiquote
