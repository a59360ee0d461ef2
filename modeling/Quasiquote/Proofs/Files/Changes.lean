import Quasiquote.Proofs.Files.Tree

/-!
# What changes in a tree

Each operation on files puts something at one location, or takes a file away from one. Making a directory
with those above it puts directories where nothing was.

## Main Definitions

* `FileTree.Targets` — a path names a location as the place for something
* `FileTree.Keeps` — what there is in a tree is there in another one as well
* `FileTree.AddsDirectories` — a tree with more directories
* `FileTree.ReachedBy` — the places to which some paths lead

## Main Statements

* `FileTree.write_eq_ok`, `FileTree.createFile_eq_ok`, `FileTree.publish_eq_ok`,
  `FileTree.createDirectory_eq_ok` — where an operation puts something
* `FileTree.Targets.find_put` — what was put at a location is found by the path that names the location
* `FileTree.rename_put`, `FileTree.remove_put` — what moving and removing a new file does
* `FileTree.addsDirectories_createDirectories` — making directories only adds directories on the way
* `FileTree.Sound.look_createDirectories` — a path leads to the same once the directory in which it ends was
  made, if it does not go up
-/

namespace Quasiquote.FileTree

variable {α : Type} {t t' : FileTree α} {path : String} {l m : Location}

/-! ### The place that a path names -/

/-- A path names a location as the place for something. Slashes may follow the name. -/
def Targets (t : FileTree α) (path : String) (slash : Bool) (l : Location) : Prop :=
  ∃ holder last, t.findParent path = .ok (holder, last, slash) ∧ isDots last = false ∧
    slot holder last = .ok l

theorem isDots_eq_false_iff {piece : String} :
    isDots piece = false ↔ piece ≠ "" ∧ piece ≠ "." ∧ piece ≠ ".." := by
  simp [isDots, and_assoc]

theorem write_eq_ok {contents : α} (h : t.write path contents = .ok t') :
    ∃ l, t.Targets path false l ∧ t.get? l ≠ some .directory ∧ t' = t.put l (.file contents) := by
  obtain ⟨⟨holder, last, slash⟩, hparent, h⟩ := bind_eq_ok h
  simp only at h
  split at h
  · cases h
  · next hends =>
    simp only [Bool.or_eq_true, not_or, Bool.not_eq_true] at hends
    obtain ⟨rfl, hdots⟩ := hends
    obtain ⟨location, hslot, h⟩ := bind_eq_ok h
    split at h
    · cases h
    · next hfree =>
      cases h
      exact ⟨location, ⟨holder, last, hparent, hdots, hslot⟩, hfree, rfl⟩

/-- A file is written at the location that a path names. -/
theorem Targets.write (h : t.Targets path false l) (hl : t.get? l ≠ some .directory) (contents : α) :
    t.write path contents = .ok (t.put l (.file contents)) := by
  obtain ⟨holder, last, hparent, hdots, hslot⟩ := h
  refine bind_eq_ok_iff.2 ⟨_, hparent, ?_⟩
  simp only [hdots, Bool.or_self, Bool.false_eq_true, if_false]
  refine bind_eq_ok_iff.2 ⟨l, hslot, ?_⟩
  split
  · next hdirectory => exact absurd hdirectory hl
  · rfl

theorem createFile_eq_ok {contents : α} (h : t.createFile path contents = .ok t') :
    ∃ l, t.Targets path false l ∧ t.get? l = none ∧ t' = t.put l (.file contents) := by
  obtain ⟨⟨holder, last, slash⟩, hparent, h⟩ := bind_eq_ok h
  simp only at h
  split at h
  · cases h
  · next hends =>
    simp only [Bool.or_eq_true, not_or, Bool.not_eq_true] at hends
    obtain ⟨rfl, hdots⟩ := hends
    obtain ⟨location, hslot, h⟩ := bind_eq_ok h
    split at h
    · cases h
    · next hfree =>
      cases h
      exact ⟨location, ⟨holder, last, hparent, hdots, hslot⟩, hfree, rfl⟩

theorem publish_eq_ok {contents : α} (h : t.publish path contents = .ok t') :
    ∃ l, t.Targets path false l ∧ t.get? l ≠ some .directory ∧ t' = t.put l (.file contents) := by
  obtain ⟨⟨holder, last, slash⟩, hparent, h⟩ := bind_eq_ok h
  simp only at h
  split at h
  · cases h
  · next hdots =>
    obtain ⟨location, hslot, h⟩ := bind_eq_ok h
    split at h
    · cases h
    · next hfree =>
      split at h
      · cases h
      · next hslash =>
        cases h
        rw [Bool.not_eq_true] at hslash hdots
        exact ⟨location, ⟨holder, last, hslash ▸ hparent, hdots, hslot⟩, hfree, rfl⟩

theorem createDirectory_eq_ok (h : t.createDirectory path = .ok t') :
    ∃ slash l, t.Targets path slash l ∧ t.get? l = none ∧ t' = t.put l .directory := by
  obtain ⟨⟨holder, last, slash⟩, hparent, h⟩ := bind_eq_ok h
  simp only at h
  split at h
  · cases h
  · next hdots =>
    obtain ⟨location, hslot, h⟩ := bind_eq_ok h
    split at h
    · cases h
    · next hfree =>
      cases h
      exact ⟨slash, location, ⟨holder, last, hparent, by simpa using hdots, hslot⟩, hfree, rfl⟩

/-- The pieces of a path around the last one that is not empty. -/
theorem pieces_eq_of_splitLast (path : String) {front : List String} {last : String} {slash : Bool}
    (h : splitLast path = (front, last, slash)) (hlast : last ≠ "") :
    ∃ blanks, Path.pieces path = front ++ last :: blanks ∧ (∀ piece ∈ blanks, piece = "") ∧
      (slash = false → blanks = []) := by
  have hall := List.takeWhile_append_dropWhile (p := (· = "")) (l := (Path.pieces path).reverse)
  have hempty : ∀ piece ∈ (Path.pieces path).reverse.takeWhile (· = ""), piece = "" :=
    fun piece hpiece => of_decide_eq_true (List.all_eq_true.1 List.all_takeWhile piece hpiece)
  unfold splitLast at h
  simp only at h
  split at h
  · cases h
    exact absurd rfl hlast
  · next last' back hcons =>
    cases h
    rw [hcons] at hall
    revert hempty hall
    generalize (Path.pieces path).reverse.takeWhile (· = "") = blanks
    intro hempty hall
    refine ⟨blanks.reverse, ?_, by simpa using hempty, fun hslash => ?_⟩
    · rw [← List.reverse_reverse (Path.pieces path), ← hall]
      simp
    · cases blanks with
      | nil => rfl
      | cons piece blanks =>
        rw [← hall, hempty piece List.mem_cons_self] at hslash
        simp at hslash

/-- **The last piece of a path names something in the directory that the pieces before it lead to.** -/
theorem Targets.exists_pieces {slash : Bool} (h : t.Targets path slash l) :
    ∃ front holder name blanks, checkPath path = .ok () ∧ Path.pieces path = front ++ name :: blanks ∧
      (∀ piece ∈ blanks, piece = "") ∧ (slash = false → blanks = []) ∧
      t.walk (t.start path) front = .ok holder ∧ t.get? holder = some .directory ∧
      Path.IsName name ∧ name.utf8ByteSize ≤ nameLimit ∧ l = holder ++ [name] := by
  obtain ⟨holder, name, hparent, hdots, hslot⟩ := h
  obtain ⟨hcheck, hparent⟩ := seq_eq_ok_iff.1 hparent
  obtain ⟨directory, hwalk, hparent⟩ := bind_eq_ok hparent
  obtain ⟨hdirectory, hparent⟩ := seq_eq_ok_iff.1 hparent
  obtain ⟨hshort, rfl⟩ := slot_eq_ok_iff.1 hslot
  cases hparent
  obtain ⟨hempty, hdot, hdots⟩ := isDots_eq_false_iff.1 hdots
  obtain ⟨blanks, hpieces, hblanks, hslash⟩ := pieces_eq_of_splitLast path rfl hempty
  have hchars := Path.mem_of_mem_pieces (hpieces ▸ List.mem_append_right _ List.mem_cons_self)
  have hname : Path.IsName (splitLast path).2.1 :=
    ⟨hempty, hdot, hdots, fun hc => (hchars _ hc).2 rfl,
      fun hc => (checkPath_eq_ok_iff.1 hcheck).1 (hchars _ hc).1⟩
  exact ⟨_, _, _, _, hcheck, hpieces, hblanks, hslash, hwalk, checkDirectory_eq_ok_iff.1 hdirectory, hname,
    hshort, rfl⟩

/-- **A path leads to the location that it names,** if there is something. -/
theorem Targets.find (h : t.Targets path false l) (hl : (t.get? l).isSome = true) :
    t.find path = .ok l := by
  obtain ⟨front, holder, name, blanks, hcheck, hpieces, -, hblanks, hwalk, hholder, hname, hshort, rfl⟩ :=
    h.exists_pieces
  rw [hblanks rfl] at hpieces
  rw [find_eq_ok_iff, hpieces, walk_append_eq_ok_iff]
  exact ⟨hcheck, holder, hwalk, (walk_name hholder hname).2 ⟨hshort, rfl, hl⟩⟩

/-- Blank pieces lead nowhere else. -/
theorem walk_blanks {pieces : List String} (hl : t.get? l = some .directory)
    (hblanks : ∀ piece ∈ pieces, piece = "") : t.walk l pieces = .ok l := by
  induction pieces with
  | nil => rfl
  | cons piece pieces ih =>
    rw [List.forall_mem_cons] at hblanks
    obtain ⟨rfl, hblanks⟩ := hblanks
    exact walk_cons_eq_ok_iff.2 ⟨l, follow_eq_ok_iff.2 ⟨hl, .inl ⟨by decide, rfl⟩⟩, ih hblanks⟩

/-- A directory at a location is found by every path that names the location. -/
theorem Targets.find_directory {slash : Bool} (h : t.Targets path slash l)
    (hl : t.get? l = some .directory) : t.find path = .ok l := by
  obtain ⟨front, holder, name, blanks, hcheck, hpieces, hblanks, -, hwalk, hholder, hname, hshort, rfl⟩ :=
    h.exists_pieces
  rw [find_eq_ok_iff, hpieces, walk_append_eq_ok_iff]
  refine ⟨hcheck, holder, hwalk, walk_cons_eq_ok_iff.2 ⟨_, ?_, walk_blanks hl hblanks⟩⟩
  have hone := (walk_name hholder hname).2 ⟨hshort, rfl, by rw [hl]; rfl⟩
  obtain ⟨m, hfollow, hrest⟩ := walk_cons_eq_ok_iff.1 hone
  rwa [Except.ok.inj hrest] at hfollow

/-! ### Trees that keep what another one has -/

/-- What there is in a tree is there in another one as well, and its directories are directories. -/
structure Keeps (t t' : FileTree α) : Prop where
  current : t'.current = t.current
  directory : ∀ l, t.get? l = some .directory → t'.get? l = some .directory
  isSome : ∀ l, (t.get? l).isSome = true → (t'.get? l).isSome = true

namespace Keeps

theorem refl (t : FileTree α) : t.Keeps t := ⟨rfl, fun _ => id, fun _ => id⟩

variable (h : t.Keeps t')
include h

theorem trans {t'' : FileTree α} (h' : t'.Keeps t'') : t.Keeps t'' where
  current := h'.current.trans h.current
  directory l hl := h'.directory l (h.directory l hl)
  isSome l hl := h'.isSome l (h.isSome l hl)

theorem follow {piece : String} (hl : t.follow l piece = .ok m) : t'.follow l piece = .ok m := by
  rw [follow_eq_ok_iff] at hl ⊢
  refine ⟨h.directory l hl.1, hl.2.imp_right (Or.imp_right ?_)⟩
  rintro ⟨hstep, hdots, hshort, heq, hsome⟩
  exact ⟨hstep, hdots, hshort, heq, h.isSome m hsome⟩

theorem walk {pieces : List String} (hl : t.walk l pieces = .ok m) : t'.walk l pieces = .ok m := by
  induction pieces generalizing l with
  | nil => exact hl
  | cons piece pieces ih =>
    obtain ⟨n, hn, hl⟩ := walk_cons_eq_ok_iff.1 hl
    exact walk_cons_eq_ok_iff.2 ⟨n, h.follow hn, ih hl⟩

theorem start (path : String) : t'.start path = t.start path := by
  rw [FileTree.start, FileTree.start, h.current]

/-- **A path that leads somewhere still leads there.** -/
theorem find (hl : t.find path = .ok l) : t'.find path = .ok l := by
  rw [find_eq_ok_iff] at hl ⊢
  exact ⟨hl.1, h.start path ▸ h.walk hl.2⟩

/-- A path names the same location as before. -/
theorem targets {slash : Bool} (hl : t.Targets path slash l) : t'.Targets path slash l := by
  obtain ⟨holder, last, hparent, hdots, hslot⟩ := hl
  refine ⟨holder, last, ?_, hdots, hslot⟩
  obtain ⟨hcheck, hparent⟩ := seq_eq_ok_iff.1 hparent
  obtain ⟨directory, hwalk, hparent⟩ := bind_eq_ok hparent
  obtain ⟨hdirectory, hparent⟩ := seq_eq_ok_iff.1 hparent
  refine seq_eq_ok_iff.2 ⟨hcheck, bind_eq_ok_iff.2 ⟨directory, h.start path ▸ h.walk hwalk, ?_⟩⟩
  rw [checkDirectory_eq_ok_iff] at hdirectory
  exact seq_eq_ok_iff.2 ⟨checkDirectory_eq_ok_iff.2 (h.directory _ hdirectory), hparent⟩

end Keeps

theorem get?_put_self (hl : t.get? l ≠ some .directory) {node : Node α} :
    (t.put l node).get? l = some node := by
  rw [get?_put _ _ _ (isPrefixOf_current_eq_false hl), if_pos rfl]

/-- What is put where there is no directory may take the place of a file. -/
theorem keeps_put (hl : t.get? l ≠ some .directory) (node : Node α) : t.Keeps (t.put l node) := by
  have hget (m : Location) := t.get?_put node m (isPrefixOf_current_eq_false hl)
  refine ⟨rfl, fun m hm => ?_, fun m hm => ?_⟩
  · rw [hget, if_neg (by rintro rfl; exact hl hm), hm]
  · rw [hget]
    split
    · rfl
    · exact hm

/-- **What was put at a location is found by the path that names the location.** -/
theorem Targets.find_put (h : t.Targets path false l) (hl : t.get? l ≠ some .directory) (node : Node α) :
    (t.put l node).find path = .ok l :=
  ((keeps_put hl node).targets h).find (by rw [get?_put_self hl]; rfl)

theorem keeps_erase {contents : α} (hl : t.get? l = some (.file contents)) : (t.erase l).Keeps t := by
  have hget (m : Location) := t.get?_erase m (isPrefixOf_current_eq_false (l := l) (by simp [hl]))
  refine ⟨rfl, fun m hm => ?_, fun m hm => ?_⟩
  · rw [hget] at hm
    split at hm
    · cases hm
    · exact hm
  · rw [hget] at hm
    split at hm
    · cases hm
    · exact hm

/-! ### One file after another at a location -/

theorem put_put (t : FileTree α) (l : Location) (node node' : Node α) :
    (t.put l node).put l node' = t.put l node' := by
  rw [put, put, put, Table.insert_insert]

theorem erase_put (hl : t.get? l = none) (node : Node α) : (t.put l node).erase l = t := by
  have hmem : l ∉ t.entries.keys := by
    rw [← Table.get?_eq_none_iff, ← get?_of_notAbove fun habove => ?_, hl]
    simp [get?_of_above habove] at hl
  rw [put, erase, Table.erase_insert hmem]

section NewFile

variable {contents : α} (h : t.Targets path false l) (hl : t.get? l = none)
include h hl

/-- A new file can be written again. -/
theorem write_put (other : α) :
    (t.put l (.file contents)).write path other = .ok (t.put l (.file other)) := by
  have hfree : t.get? l ≠ some .directory := by simp [hl]
  have htargets := (keeps_put hfree (.file contents)).targets h
  rw [htargets.write (by rw [get?_put_self hfree]; simp), put_put]

/-- Moving a new file is publishing what it holds. -/
theorem rename_put (target : String) :
    (t.put l (.file contents)).rename path target = t.publish target contents := by
  have hfree : t.get? l ≠ some .directory := by simp [hl]
  have hread : (t.put l (.file contents)).readAt l = .ok contents := by rw [readAt, get?_put_self hfree]
  rw [rename, h.find_put hfree]
  show ((t.put l (.file contents)).readAt l >>= fun found => ((t.put l _).erase l).publish target found) = _
  rw [hread, erase_put hl]
  rfl

/-- Removing a new file restores the tree. -/
theorem remove_put : (t.put l (.file contents)).remove path = .ok t := by
  have hfree : t.get? l ≠ some .directory := by simp [hl]
  exact remove_eq_ok_iff.2 ⟨l, contents, h.find_put hfree _, get?_put_self hfree, (erase_put hl _).symm⟩

end NewFile

/-! ### Making directories -/

/-- A tree with more directories, where nothing was, at locations of some kind. -/
structure AddsDirectories (made : Location → Prop) (t t' : FileTree α) : Prop where
  current : t'.current = t.current
  get? : ∀ l, t'.get? l = t.get? l ∨ t.get? l = none ∧ t'.get? l = some .directory ∧ made l

namespace AddsDirectories

variable {made : Location → Prop}

theorem refl (made : Location → Prop) (t : FileTree α) : AddsDirectories made t t := ⟨rfl, fun _ => .inl rfl⟩

theorem trans {t'' : FileTree α} (h : AddsDirectories made t t') (h' : AddsDirectories made t' t'') :
    AddsDirectories made t t'' := by
  refine ⟨h'.current.trans h.current, fun l => ?_⟩
  rcases h.get? l with hl | ⟨hnone, hl, hmade⟩
  · rcases h'.get? l with hl' | ⟨hnone, hl', hmade⟩
    · exact .inl (hl'.trans hl)
    · exact .inr ⟨hl ▸ hnone, hl', hmade⟩
  · rcases h'.get? l with hl' | ⟨hnone', hl', -⟩
    · exact .inr ⟨hnone, hl'.trans hl, hmade⟩
    · simp [hl] at hnone'

theorem mono {made' : Location → Prop} (h : AddsDirectories made t t') (hmade : ∀ l, made l → made' l) :
    AddsDirectories made' t t' := by
  refine ⟨h.current, fun l => (h.get? l).imp_right ?_⟩
  rintro ⟨hnone, hl, hl'⟩
  exact ⟨hnone, hl, hmade l hl'⟩

theorem put (hl : t.get? l = none) (hmade : made l) : AddsDirectories made t (t.put l .directory) := by
  refine ⟨rfl, fun m => ?_⟩
  rw [get?_put _ _ _ (isPrefixOf_current_eq_false (by simp [hl]))]
  split
  · next heq => exact .inr ⟨heq ▸ hl, rfl, heq ▸ hmade⟩
  · exact .inl rfl

theorem get?_eq_some (h : AddsDirectories made t t') {node : Node α} (hl : t.get? l = some node) :
    t'.get? l = some node := by
  rcases h.get? l with heq | ⟨hnone, -⟩
  · rw [heq, hl]
  · simp [hl] at hnone

theorem keeps (h : AddsDirectories made t t') : t.Keeps t' where
  current := h.current
  directory _ hl := h.get?_eq_some hl
  isSome l hl := by
    obtain ⟨node, hnode⟩ := Option.isSome_iff_exists.1 hl
    rw [h.get?_eq_some hnode]
    rfl

/-- The files are the same. -/
theorem file_iff (h : AddsDirectories made t t') {contents : α} :
    t'.get? l = some (.file contents) ↔ t.get? l = some (.file contents) := by
  refine ⟨fun hl => ?_, h.get?_eq_some⟩
  rcases h.get? l with heq | ⟨-, hdirectory, -⟩
  · rw [← heq, hl]
  · rw [hl] at hdirectory
    cases hdirectory

end AddsDirectories

/-- Some paths with steps lead to a location. -/
def ReachedBy (t : FileTree α) (paths : List String) (l : Location) : Prop :=
  ∃ p ∈ paths, Path.steps p ≠ [] ∧ t.find p = .ok l

theorem Targets.steps_ne_nil {slash : Bool} (h : t.Targets path slash l) : Path.steps path ≠ [] := by
  obtain ⟨front, holder, name, blanks, -, hpieces, -, -, -, -, hname, -, -⟩ := h.exists_pieces
  refine List.ne_nil_of_mem (a := name) ?_
  rw [← Path.filter_pieces, List.mem_filter, hpieces]
  exact ⟨List.mem_append_right _ List.mem_cons_self, hname.isStep⟩

/-- A directory that is made is where its path leads. -/
theorem addsDirectories_createDirectory (hmade : t.createDirectory path = .ok t') :
    AddsDirectories (t'.ReachedBy [path]) t t' := by
  obtain ⟨slash, l, htargets, hnone, rfl⟩ := createDirectory_eq_ok hmade
  have hfree : t.get? l ≠ some .directory := by simp [hnone]
  have htargets' := (keeps_put hfree .directory).targets htargets
  exact .put hnone ⟨path, List.mem_cons_self, htargets.steps_ne_nil,
    htargets'.find_directory (get?_put_self hfree)⟩

/-- **Only places to which the paths lead become directories.** -/
theorem addsDirectories_createFirst (t : FileTree α) (paths : List String) :
    AddsDirectories ((t.createFirst paths).2.ReachedBy paths) t (t.createFirst paths).2 := by
  induction paths generalizing t with
  | nil => exact .refl _ t
  | cons path above ih =>
    have hone {t₁ t₂ : FileTree α} (hmade : t₁.createDirectory path = .ok t₂) :
        AddsDirectories (t₂.ReachedBy (path :: above)) t₁ t₂ := by
      refine (addsDirectories_createDirectory hmade).mono fun l hl => ?_
      obtain ⟨p, hp, hsteps⟩ := hl
      exact ⟨p, List.mem_cons.2 (.inl (List.mem_singleton.1 hp)), hsteps⟩
    have habove := (ih t).mono fun l ⟨p, hp, hreaches⟩ =>
      show (t.createFirst above).2.ReachedBy (path :: above) l from
        ⟨p, List.mem_cons_of_mem _ hp, hreaches⟩
    unfold createFirst
    split
    · exact .refl _ t
    simp only
    split
    · next hmade => exact hone hmade
    · split
      · next hresult =>
        rw [hresult] at habove
        exact habove
      · next hresult =>
        rw [hresult] at habove
        split
        · next hmade =>
          -- what the paths above led to is still there
          refine AddsDirectories.trans (habove.mono fun l ⟨p, hp, hsteps, hfind⟩ => ?_) (hone hmade)
          exact ⟨p, hp, hsteps, (hone hmade).keeps.find hfind⟩
        · split <;> exact habove
    · split <;> exact .refl _ t

/-- **Making a directory** adds directories where its path or those above it lead, and changes nothing else. -/
theorem addsDirectories_createDirectories (t : FileTree α) (path : String) :
    AddsDirectories ((t.createDirectories path).2.ReachedBy (Path.ancestors path)) t
      (t.createDirectories path).2 :=
  addsDirectories_createFirst t _

/-! ### Paths that do not go up -/

/-- Where pieces lead that do not go up. -/
theorem walk_of_dots_notMem {pieces : List String} (hdots : ".." ∉ pieces) (h : t.walk l pieces = .ok m) :
    m = l ++ pieces.filter Path.isStep := by
  induction pieces generalizing l with
  | nil => simpa using (Except.ok.inj h).symm
  | cons piece pieces ih =>
    rw [List.mem_cons, not_or] at hdots
    obtain ⟨n, hn, h⟩ := walk_cons_eq_ok_iff.1 h
    rw [ih hdots.2 h, List.filter_cons]
    rcases (follow_eq_ok_iff.1 hn).2 with ⟨hskip, rfl⟩ | ⟨hup, -⟩ | ⟨hstep, -, -, rfl, -⟩
    · simp [hskip]
    · exact absurd hup.symm hdots.1
    · simp [hstep]

theorem find_of_dots_notMem (hdots : ".." ∉ Path.pieces path) (h : t.find path = .ok l) :
    l = t.start path ++ Path.steps path :=
  walk_of_dots_notMem hdots (find_eq_ok_iff.1 h).2

/-- **The directories that are made for a path** lie elsewhere than the path leads to. -/
theorem addsDirectories_elsewhere (hdots : ".." ∉ Path.pieces path) :
    AddsDirectories (· ≠ t.start path ++ Path.steps path) t
      (t.createDirectories (Path.directoryOf path)).2 := by
  have hadds := t.addsDirectories_createDirectories (Path.directoryOf path)
  refine hadds.mono fun l ⟨p, hp, hsome, hfind⟩ => ?_
  obtain ⟨hfirst, habsolute⟩ := Path.mem_ancestors hp
  rcases Path.directoryOf_cases path with hnil | hparent
  · rw [hnil, List.prefix_nil] at hfirst
    exact absurd hfirst hsome
  obtain ⟨hsteps, habsolute'⟩ := Path.parent?_eq_some hparent
  rw [hsteps] at hfirst
  have hdots' : ".." ∉ Path.pieces p := by
    rw [← Path.dots_mem_steps] at hdots ⊢
    exact fun h => hdots ((List.dropLast_subset _) (hfirst.subset h))
  have hstart : (t.createDirectories (Path.directoryOf path)).2.start p = t.start path := by
    rw [start, start, habsolute, habsolute', hadds.current]
  rw [find_of_dots_notMem hdots' hfind, hstart]
  intro heq
  -- a path has more steps than those above it
  have hle := hfirst.length_le
  have hpos := List.length_pos_iff.2 hsome
  rw [List.append_cancel_left heq, List.length_dropLast] at hle
  rw [List.append_cancel_left heq] at hpos
  omega

/-- In a sound tree a path leads to what is at its end, if another tree has the same there. -/
theorem Sound.walk_of_walk (hsound : t.Sound) {pieces : List String} (hdots : ".." ∉ pieces)
    (h : t'.walk l pieces = .ok m) (hsame : t'.get? m = t.get? m) (hm : (t.get? m).isSome = true) :
    t.walk l pieces = .ok m := by
  obtain ⟨node, hnode⟩ := Option.isSome_iff_exists.1 hm
  induction pieces generalizing l with
  | nil => exact h
  | cons piece pieces ih =>
    have hfrom := walk_of_dots_notMem hdots h
    rw [List.mem_cons, not_or] at hdots
    obtain ⟨n, hn, h⟩ := walk_cons_eq_ok_iff.1 h
    refine walk_cons_eq_ok_iff.2 ⟨n, ?_, ih hdots.2 h⟩
    rw [follow_eq_ok_iff] at hn ⊢
    refine ⟨?_, hn.2.imp_right (Or.imp_right ?_)⟩
    · by_cases hnil : (piece :: pieces).filter Path.isStep = []
      · obtain rfl : m = l := by rw [hfrom, hnil, List.append_nil]
        rw [← hsame, hn.1]
      · exact hsound.above (hfrom ▸ hnode) hnil
    · rintro ⟨hstep, hup, hshort, hpiece, -⟩
      refine ⟨hstep, hup, hshort, hpiece, ?_⟩
      have hfrom := walk_of_dots_notMem hdots.2 h
      by_cases hnil : pieces.filter Path.isStep = []
      · obtain rfl : m = n := by rw [hfrom, hnil, List.append_nil]
        exact hm
      · rw [hsound.above (hfrom ▸ hnode) hnil]
        rfl

/-- **A path that does not go up leads to the same** once the directory in which it ends was made. -/
theorem Sound.look_createDirectories (hsound : t.Sound) (hdots : ".." ∉ Path.pieces path) :
    (t.createDirectories (Path.directoryOf path)).2.look path = t.look path := by
  have hadds := addsDirectories_elsewhere (t := t) hdots
  refine Option.ext fun node => ?_
  rw [look_eq_some_iff, look_eq_some_iff]
  constructor
  · rintro ⟨l, hl, hnode⟩
    have hsame : (t.createDirectories (Path.directoryOf path)).2.get? l = t.get? l := by
      refine (hadds.get? l).resolve_right fun hmade => hmade.2.2 ?_
      rw [find_of_dots_notMem hdots hl, hadds.keeps.start]
    have hsome : t.get? l = some node := hsame.symm.trans hnode
    obtain ⟨hcheck, hwalk⟩ := find_eq_ok_iff.1 hl
    rw [hadds.keeps.start] at hwalk
    exact ⟨l, find_eq_ok_iff.2 ⟨hcheck, hsound.walk_of_walk hdots hwalk hsame (by simp [hsome])⟩, hsome⟩
  · rintro ⟨l, hl, hnode⟩
    exact ⟨l, hadds.keeps.find hl, hadds.get?_eq_some hnode⟩

end Quasiquote.FileTree
