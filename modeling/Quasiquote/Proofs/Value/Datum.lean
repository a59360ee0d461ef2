import Mathlib.Data.Fintype.Card
import Mathlib.Data.List.Forall2
import Quasiquote.Proofs.Host.Growth

/-!
# Plain values

A value that is made of none, booleans, integers, strings and lists, and of nothing that holds itself, is a
finite tree. Where its parts lie in the heap, and which of them are shared, is no part of the tree.

## Main Definitions

* `Datum` — the tree of a plain value
* `Heap.Holds` — the tree that a reference leads to
* `Datum.text` — the written form of a plain value

## Main Statements

* `Heap.Holds.height_le` — no plain value is higher than there are objects
* `Heap.Holds.repr` — the written form of a value is that of its tree
* `Heap.Holds.equal` — values with the same tree are equal
-/

namespace Quasiquote

/-- **The tree of a plain value.** -/
inductive Datum where
  | none
  | bool (value : Bool)
  | int (value : Int64)
  | str (text : String)
  | list (items : List Datum)

namespace Datum

/-- What holds of a list if it holds of its items holds of all trees. -/
@[induction_eliminator]
theorem induction {motive : Datum → Prop} (none : motive .none) (bool : ∀ value, motive (.bool value))
    (int : ∀ value, motive (.int value)) (str : ∀ text, motive (.str text))
    (list : ∀ items : List Datum, (∀ d ∈ items, motive d) → motive (.list items)) : ∀ d, motive d
  | .none => none
  | .bool value => bool value
  | .int value => int value
  | .str text => str text
  | .list items => list items fun d _ => induction none bool int str list d

/-- The number of objects on the longest way down a tree. -/
def height : Datum → Nat
  | list items => (items.map height).foldr max 0 + 1
  | _ => 1

/-- The written form of a plain value. -/
def text : Datum → String
  | none => "None"
  | bool true => "True"
  | bool false => "False"
  | int value => toString value.toInt
  | str text => quoteText text
  | list items => "[" ++ ", ".intercalate (items.map text) ++ "]"

theorem height_list (items : List Datum) :
    (list items).height = (items.map height).foldr max 0 + 1 := by
  rw [height]

theorem text_list (items : List Datum) :
    (list items).text = "[" ++ ", ".intercalate (items.map text) ++ "]" := by
  rw [text]

theorem height_pos (d : Datum) : 0 < d.height := by
  cases d <;> simp [height]

theorem le_foldr_max {heights : List Nat} {n : Nat} (h : n ∈ heights) : n ≤ heights.foldr max 0 := by
  induction heights with
  | nil => simp at h
  | cons m heights ih =>
    rcases List.mem_cons.1 h with rfl | h
    · exact Nat.le_max_left _ _
    · exact Nat.le_trans (ih h) (Nat.le_max_right _ _)

theorem exists_mem_of_le_foldr_max {heights : List Nat} {n : Nat} (hn : 0 < n)
    (h : n ≤ heights.foldr max 0) : ∃ m ∈ heights, n ≤ m := by
  induction heights with
  | nil => exact absurd h (Nat.not_le.2 hn)
  | cons m heights ih =>
    rcases le_max_iff.1 h with h | h
    · exact ⟨m, List.mem_cons_self, h⟩
    · obtain ⟨k, hk, hle⟩ := ih h
      exact ⟨k, List.mem_cons_of_mem _ hk, hle⟩

/-- An item is less high than its list. -/
theorem height_lt_of_mem {items : List Datum} {d : Datum} (h : d ∈ items) :
    d.height < (list items).height := by
  rw [height_list]
  exact Nat.lt_succ_of_le (le_foldr_max (List.mem_map_of_mem h))

theorem height_le_of_mem {items : List Datum} {d : Datum} (h : d ∈ items) {depth : Nat}
    (hdepth : (list items).height ≤ depth + 1) : d.height ≤ depth :=
  Nat.le_of_lt_succ (Nat.lt_of_lt_of_le (height_lt_of_mem h) hdepth)

theorem exists_succ {d : Datum} {depth : Nat} (h : d.height ≤ depth) : ∃ k, depth = k + 1 :=
  Nat.exists_eq_succ_of_ne_zero (Nat.ne_of_gt (Nat.lt_of_lt_of_le d.height_pos h))

end Datum

theorem getElem_mem_zip {α β : Type} {as : List α} {bs : List β} {i : Nat} (ha : i < as.length)
    (hb : i < bs.length) : (as[i], bs[i]) ∈ as.zip bs := by
  have hi : i < (as.zip bs).length := by
    rw [List.length_zip]
    exact Nat.lt_min.2 ⟨ha, hb⟩
  rw [← List.getElem_zip (h := hi)]
  exact List.getElem_mem hi

namespace Heap

/-- **The tree that a reference leads to.** A value that holds itself has none. -/
inductive Holds (h : Heap) : Ref → Datum → Prop
  | none {r : Ref} : r.index < h.size → h.get r = .none → Holds h r .none
  | bool {r : Ref} {value : Bool} : h.get r = .bool value → Holds h r (.bool value)
  | int {r : Ref} {value : Int64} : h.get r = .int value → Holds h r (.int value)
  | str {r : Ref} {text : String} : h.get r = .str text → Holds h r (.str text)
  | list {r : Ref} {items : List Ref} {trees : List Datum} : h.get r = .list items →
      items.length = trees.length → (∀ p ∈ items.zip trees, Holds h p.1 p.2) → Holds h r (.list trees)

namespace Holds

variable {h g : Heap} {r s : Ref} {d e : Datum}

/-- A list of trees is led to item by item. -/
theorem list_of_forall₂ {items : List Ref} {trees : List Datum} (hget : h.get r = .list items)
    (hall : List.Forall₂ h.Holds items trees) : h.Holds r (.list trees) := by
  obtain ⟨hlength, hitems⟩ := List.forall₂_iff_zip.1 hall
  exact .list hget hlength fun p hp => hitems hp

theorem index_lt (hr : h.Holds r d) : r.index < h.size := by
  cases hr with
  | none hlt _ => exact hlt
  | bool hget => exact index_lt_of_get_ne (by simp [hget])
  | int hget => exact index_lt_of_get_ne (by simp [hget])
  | str hget => exact index_lt_of_get_ne (by simp [hget])
  | list hget _ _ => exact index_lt_of_get_ne (by simp [hget])

/-- What is held is held still when there are more objects. -/
theorem mono (hr : h.Holds r d) (hg : h.Extends g) : g.Holds r d := by
  induction hr with
  | none hlt hget => exact .none (Nat.lt_of_lt_of_le hlt hg.size) ((hg.get _ hlt).trans hget)
  | bool hget => exact .bool ((hg.get _ (Holds.bool hget).index_lt).trans hget)
  | int hget => exact .int ((hg.get _ (Holds.int hget).index_lt).trans hget)
  | str hget => exact .str ((hg.get _ (Holds.str hget).index_lt).trans hget)
  | list hget hlength hitems ih =>
    exact .list ((hg.get _ (Holds.list hget hlength hitems).index_lt).trans hget) hlength ih

/-- A reference leads to one tree. -/
theorem unique (hr : h.Holds r d) (hr' : h.Holds r e) : d = e := by
  induction hr generalizing e with
  | none _ hget => cases hr' <;> simp_all
  | bool hget => cases hr' <;> simp_all
  | int hget => cases hr' <;> simp_all
  | str hget => cases hr' <;> simp_all
  | @list r items trees hget hlength hitems ih =>
    cases hr' with
    | @list _ items' trees' hget' hlength' hitems' =>
      obtain rfl : items = items' := by simpa [hget] using hget'
      congr 1
      refine List.ext_getElem (hlength.symm.trans hlength') fun i hi hi' => ?_
      have hitem : i < items.length := hlength ▸ hi
      exact ih _ (getElem_mem_zip hitem hi) (hitems' _ (getElem_mem_zip hitem hi'))
    | none _ hother => simp [hget] at hother
    | bool hother => simp [hget] at hother
    | int hother => simp [hget] at hother
    | str hother => simp [hget] at hother

/-! ### Height -/

/-- On the longest way down a tree there is an object of every height. -/
theorem exists_height (hr : h.Holds r d) {n : Nat} (hn : 0 < n) (hle : n ≤ d.height) :
    ∃ s e, h.Holds s e ∧ e.height = n := by
  rcases Nat.eq_or_lt_of_le hle with rfl | hlt
  · exact ⟨r, d, hr, rfl⟩
  induction hr with
  | list hget hlength hitems ih =>
    rename_i items trees
    rw [Datum.height_list] at hlt
    obtain ⟨_, hmem, hle⟩ := Datum.exists_mem_of_le_foldr_max hn (Nat.le_of_lt_succ hlt)
    obtain ⟨d, hd, rfl⟩ := List.mem_map.1 hmem
    obtain ⟨i, hi, rfl⟩ := List.mem_iff_getElem.1 hd
    have hzip := getElem_mem_zip (show i < items.length from hlength ▸ hi) hi
    rcases Nat.eq_or_lt_of_le hle with rfl | hlt
    · exact ⟨_, _, hitems _ hzip, rfl⟩
    · exact ih _ hzip hle hlt
  | _ =>
    simp only [Datum.height] at hlt
    omega

/-- **No plain value is higher than there are objects:** those on the longest way down have different
heights, so that no two of them are one. -/
theorem height_le (hr : h.Holds r d) : d.height ≤ h.size := by
  have hall (i : Fin d.height) : ∃ s : Fin h.size, ∃ e, h.Holds ⟨s⟩ e ∧ e.height = i + 1 := by
    obtain ⟨s, e, hs, he⟩ := hr.exists_height (Nat.succ_pos i) i.isLt
    exact ⟨⟨s.index, hs.index_lt⟩, e, hs, he⟩
  choose place tree hplace hheight using hall
  have hinjective : Function.Injective place := by
    intro i j hij
    have hsame : tree i = tree j := (hplace i).unique (hij ▸ hplace j)
    have hboth := hheight j
    rw [← hsame, hheight i] at hboth
    exact Fin.ext (Nat.succ_injective hboth)
  simpa using Fintype.card_le_of_injective place hinjective

/-! ### Text and equality -/

theorem reprWithin (hr : h.Holds r d) {depth : Nat} (hdepth : d.height ≤ depth) :
    h.reprWithin depth r = d.text := by
  induction hr generalizing depth with
  | none _ hget =>
    obtain ⟨depth, rfl⟩ := Datum.exists_succ hdepth
    simp [Heap.reprWithin, hget, Datum.text]
  | @bool _ value hget =>
    obtain ⟨depth, rfl⟩ := Datum.exists_succ hdepth
    cases value <;> simp [Heap.reprWithin, hget, Datum.text]
  | int hget =>
    obtain ⟨depth, rfl⟩ := Datum.exists_succ hdepth
    simp [Heap.reprWithin, hget, Datum.text]
  | str hget =>
    obtain ⟨depth, rfl⟩ := Datum.exists_succ hdepth
    simp [Heap.reprWithin, hget, Datum.text]
  | @list r items trees hget hlength hitems ih =>
    obtain ⟨depth, rfl⟩ := Datum.exists_succ hdepth
    have hparts : items.map (h.reprWithin depth) = trees.map Datum.text := by
      rw [← List.forall₂_eq_eq_eq, List.forall₂_map_left_iff, List.forall₂_map_right_iff,
        List.forall₂_iff_zip]
      exact ⟨hlength, fun hp => ih _ hp (Datum.height_le_of_mem (List.of_mem_zip hp).2 hdepth)⟩
    simp only [Heap.reprWithin, hget]
    rw [hparts, Datum.text_list]

/-- **The written form of a value is that of its tree.** -/
theorem repr (hr : h.Holds r d) : h.repr r = d.text :=
  hr.reprWithin (Nat.le_succ_of_le hr.height_le)

theorem equalWithin (hr : h.Holds r d) (hs : h.Holds s d) {depth : Nat} (hdepth : d.height ≤ depth) :
    h.equalWithin depth r s = true := by
  induction hr generalizing s depth with
  | none _ hget =>
    obtain ⟨depth, rfl⟩ := Datum.exists_succ hdepth
    cases hs with
    | none _ hget' => simp [Heap.equalWithin, hget, hget', Object.number?]
  | bool hget =>
    obtain ⟨depth, rfl⟩ := Datum.exists_succ hdepth
    cases hs with
    | bool hget' => simp [Heap.equalWithin, hget, hget', Object.number?, Number.equal]
  | int hget =>
    obtain ⟨depth, rfl⟩ := Datum.exists_succ hdepth
    cases hs with
    | int hget' => simp [Heap.equalWithin, hget, hget', Object.number?, Number.equal]
  | str hget =>
    obtain ⟨depth, rfl⟩ := Datum.exists_succ hdepth
    cases hs with
    | str hget' => simp [Heap.equalWithin, hget, hget', Object.number?]
  | @list r items trees hget hlength hitems ih =>
    obtain ⟨depth, rfl⟩ := Datum.exists_succ hdepth
    cases hs with
    | @list _ items' _ hget' hlength' hitems' =>
      have hall : ∀ p ∈ items.zip items', h.equalWithin depth p.1 p.2 = true := by
        intro p hp
        obtain ⟨i, hi, rfl⟩ := List.mem_iff_getElem.1 hp
        obtain ⟨hleft, hright⟩ := Nat.lt_min.1 (List.length_zip ▸ hi)
        have htree : i < trees.length := hlength ▸ hleft
        rw [List.getElem_zip]
        have hother : h.Holds items'[i] trees[i] := hitems' _ (getElem_mem_zip hright htree)
        exact ih _ (getElem_mem_zip hleft htree) hother
          (Datum.height_le_of_mem (List.getElem_mem htree) hdepth)
      simp only [Heap.equalWithin, hget, hget', Object.number?]
      split
      · rfl
      · rw [hlength, hlength', beq_self_eq_true, Bool.true_and, List.all_eq_true]
        exact hall

/-- **Values with the same tree are equal.** -/
theorem equal (hr : h.Holds r d) (hs : h.Holds s d) : h.equal r s = true :=
  hr.equalWithin hs (Nat.le_succ_of_le hr.height_le)

end Holds

end Heap

end Quasiquote
