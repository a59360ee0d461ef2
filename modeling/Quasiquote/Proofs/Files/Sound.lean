import Quasiquote.Proofs.Files.Changes

/-!
# Operations on sound trees

Every tree that is made from an empty one by writing, moving and removing files and by making directories is
sound.

## Main Definitions

* `FileTree.Puts` — a tree with something new under a name in one of its directories

## Main Statements

* `FileTree.Puts.sound` — putting something under a name keeps a tree sound
* `FileTree.Sound.write`, `FileTree.Sound.publish`, `FileTree.Sound.createDirectory`,
  `FileTree.Sound.createDirectories`, `FileTree.Sound.erase`, `FileTree.Sound.remove`,
  `FileTree.Sound.plant` — the operations keep trees sound
-/

namespace Quasiquote

namespace FileTree

variable {α : Type} {t t' : FileTree α} {path : String}

/-- An empty tree is sound if its current directory can be named. -/
theorem sound_emptyAt {current : Location}
    (h : ∀ name ∈ current, Path.IsName name ∧ name.utf8ByteSize ≤ nameLimit) :
    (emptyAt current : FileTree α).Sound where
  nodup := List.nodup_nil
  notAbove := fun _ h => nomatch h
  parent := fun _ h => nomatch h
  names := fun _ h => nomatch h
  currentNames := h

/-- Something new stands under a name in a directory, where no directory was. -/
def Puts (t t' : FileTree α) : Prop :=
  ∃ holder name node, t.get? holder = some .directory ∧ Path.IsName name ∧
    name.utf8ByteSize ≤ nameLimit ∧ t.get? (holder ++ [name]) ≠ some .directory ∧
    t' = t.put (holder ++ [name]) node

/-- **Putting something under a name keeps a tree sound.** -/
theorem Puts.sound (h : t.Puts t') (hsound : t.Sound) : t'.Sound := by
  obtain ⟨holder, name, node, hholder, hname, hshort, hfree, rfl⟩ := h
  have hnotAbove : ¬ holder ++ [name] <+: t.current := fun habove => hfree (get?_of_above habove)
  have hkeys : ∀ l ∈ (t.put (holder ++ [name]) node).entries.keys,
      l ∈ t.entries.keys ∨ l = holder ++ [name] := by
    intro l hl
    rw [put, Table.keys_insert] at hl
    split at hl
    · exact .inl hl
    · simpa using hl
  have hget (l : Location) : (t.put (holder ++ [name]) node).get? l =
      if l = holder ++ [name] then some node else t.get? l :=
    t.get?_put node l (by rwa [← Bool.not_eq_true, List.isPrefixOf_iff_prefix])
  have hdirectory {l : Location} (hl : t.get? l = some .directory) :
      (t.put (holder ++ [name]) node).get? l = some .directory := by
    rw [hget, if_neg, hl]
    rintro rfl
    exact hfree hl
  refine ⟨Table.nodup_insert hsound.nodup _ _, fun l hl => ?_, fun l hl => ?_, fun l hl => ?_,
    hsound.currentNames⟩
  · rcases hkeys l hl with hl | rfl
    · exact hsound.notAbove l hl
    · exact hnotAbove
  · rcases hkeys l hl with hl | rfl
    · exact hdirectory (hsound.parent l hl)
    · rw [List.dropLast_concat]
      exact hdirectory hholder
  · rcases hkeys l hl with hl | rfl
    · exact hsound.names l hl
    · intro n hn
      rw [List.mem_append, List.mem_singleton] at hn
      rcases hn with hn | rfl
      · rcases mem_keys_of_get? hholder with hmem | ⟨habove, -⟩
        · exact hsound.names holder hmem n hn
        · exact hsound.currentNames n (habove.subset hn)
      · exact ⟨hname, hshort⟩

/-- What is put at a location that a path names stands under a name in a directory. -/
theorem Targets.puts {slash : Bool} {l : Location} (h : t.Targets path slash l)
    (hfree : t.get? l ≠ some .directory) (node : Node α) : t.Puts (t.put l node) := by
  obtain ⟨-, holder, name, -, -, -, -, -, -, hholder, hname, hshort, rfl⟩ := h.exists_pieces
  exact ⟨holder, name, node, hholder, hname, hshort, hfree, rfl⟩

namespace Sound

variable (hsound : t.Sound)
include hsound

theorem write {contents : α} (h : t.write path contents = .ok t') : t'.Sound :=
  let ⟨_, htargets, hfree, heq⟩ := write_eq_ok h
  heq ▸ (htargets.puts hfree _).sound hsound

theorem publish {contents : α} (h : t.publish path contents = .ok t') : t'.Sound :=
  let ⟨_, htargets, hfree, heq⟩ := publish_eq_ok h
  heq ▸ (htargets.puts hfree _).sound hsound

theorem createDirectory (h : t.createDirectory path = .ok t') : t'.Sound :=
  let ⟨_, _, htargets, hfree, heq⟩ := createDirectory_eq_ok h
  heq ▸ (htargets.puts (by simp [hfree]) _).sound hsound

theorem erase {l : Location} {contents : α} (h : t.get? l = some (.file contents)) : (t.erase l).Sound := by
  have hfiles : t.AllFiles [l] := by
    intro m hm
    rw [List.mem_singleton.1 hm]
    exact ⟨contents, h⟩
  rw [← without_nil (t := t), erase_without]
  exact hsound.without hfiles

theorem remove (h : t.remove path = .ok t') : t'.Sound := by
  obtain ⟨l, contents, -, hfile, rfl⟩ := remove_eq_ok_iff.1 h
  exact hsound.erase hfile

/-- Directories that were made on the way stay if a later one fails. -/
theorem createFirst (paths : List String) : (t.createFirst paths).2.Sound := by
  induction paths generalizing t with
  | nil => exact hsound
  | cons path above ih =>
    unfold FileTree.createFirst
    split
    · exact hsound
    simp only
    split
    · next hmade => exact hsound.createDirectory hmade
    · have habove := ih hsound
      split
      · next hresult =>
        rw [hresult] at habove
        exact habove
      · next hresult =>
        rw [hresult] at habove
        split
        · next hmade => exact habove.createDirectory hmade
        · split <;> exact habove
    · split <;> exact hsound

theorem createDirectories (path : String) : (t.createDirectories path).2.Sound :=
  hsound.createFirst _

theorem plant (path : String) (contents : α) : (t.plant path contents).Sound := by
  have hmade := hsound.createDirectories ((Path.parent? path).getD "")
  unfold FileTree.plant
  simp only
  split
  · next hwrite => exact hmade.write hwrite
  · exact hmade

end Sound

end FileTree

end Quasiquote
