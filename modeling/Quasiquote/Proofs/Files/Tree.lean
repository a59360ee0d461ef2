import Mathlib.Data.List.Induction
import Quasiquote.Files.Tree
import Quasiquote.Proofs.Basic
import Quasiquote.Proofs.Files.Path

/-!
# Finding files

In a tree as file systems keep them, what a path leads to depends only on the directory that its steps
reach. Removing files changes nothing else that a path leads to.

## Main Definitions

* `FileTree.Sound` — a tree as file systems keep them
* `FileTree.Reaches` — the directory that a path's steps lead to, whatever the path's length
* `FileTree.pathBelow` — the path of a location from the path of a directory above it
* `FileTree.without` — a tree without some of its files
* `FileTree.Relists` — a tree with its directories listed in another order

## Main Statements

* `FileTree.find_join` — a path seen from a directory is followed from where that directory is
* `FileTree.reaches_parent` — the parent of a file's path leads to the directory that holds the file
* `FileTree.find_without` — a path leads to the same without some files, unless it leads to one of them

## Design Notes

The length of a path is checked before it is followed, so that two paths to one directory do not give the
same as soon as one of them is too long. `Reaches` leaves that check out.
-/

namespace Quasiquote.FileTree

variable {α : Type} {t : FileTree α}

/-! ### Sound trees -/

/-- A tree as file systems keep them. -/
structure Sound (t : FileTree α) : Prop where
  /-- Nothing is listed twice. -/
  nodup : t.entries.keys.Nodup
  /-- The current directory and those above it are there without being listed. -/
  notAbove : ∀ l ∈ t.entries.keys, ¬ l <+: t.current
  /-- What is listed stands in a directory. -/
  parent : ∀ l ∈ t.entries.keys, t.get? l.dropLast = some .directory
  /-- What is listed has a name. -/
  names : ∀ l ∈ t.entries.keys, ∀ name ∈ l, Path.IsName name ∧ name.utf8ByteSize ≤ nameLimit
  currentNames : ∀ name ∈ t.current, Path.IsName name ∧ name.utf8ByteSize ≤ nameLimit

theorem get?_of_above {l : Location} (h : l <+: t.current) : t.get? l = some .directory := by
  rw [get?, if_pos (List.isPrefixOf_iff_prefix.2 h)]

theorem get?_of_notAbove {l : Location} (h : ¬ l <+: t.current) : t.get? l = t.entries.get? l := by
  rw [get?, if_neg (fun hl => h (List.isPrefixOf_iff_prefix.1 hl))]

/-- What is no directory is not above the current directory. -/
theorem isPrefixOf_current_eq_false {l : Location} (h : t.get? l ≠ some .directory) :
    l.isPrefixOf t.current = false := by
  rw [← Bool.not_eq_true, List.isPrefixOf_iff_prefix]
  exact fun habove => h (get?_of_above habove)

theorem get?_nil : t.get? [] = some .directory := get?_of_above List.nil_prefix

theorem get?_start (path : String) : t.get? (t.start path) = some .directory := by
  unfold start
  split
  · exact get?_nil
  · exact get?_of_above List.prefix_rfl

/-- What is not listed is the current directory or one above it. -/
theorem mem_keys_of_get? {l : Location} {node : Node α} (h : t.get? l = some node) :
    l ∈ t.entries.keys ∨ l <+: t.current ∧ node = .directory := by
  by_cases habove : l <+: t.current
  · rw [get?_of_above habove] at h
    exact .inr ⟨habove, (Option.some.inj h).symm⟩
  · rw [get?_of_notAbove habove] at h
    by_contra hnot
    rw [not_or, ← Table.get?_eq_none_iff, h] at hnot
    exact absurd hnot.1 (by simp)

/-- A file is listed. -/
theorem mem_keys_of_file {l : Location} {contents : α} (h : t.get? l = some (.file contents)) :
    l ∈ t.entries.keys := by
  rcases mem_keys_of_get? h with hmem | ⟨-, hnode⟩
  · exact hmem
  · cases hnode

namespace Sound

theorem get?_eq_some_iff (h : t.Sound) {l : Location} {node : Node α} (hl : ¬ l <+: t.current) :
    t.get? l = some node ↔ (l, node) ∈ t.entries := by
  rw [get?_of_notAbove hl, Table.get?_eq_some_iff h.nodup]

/-- A directory stands in a directory. -/
theorem dropLast (h : t.Sound) {l : Location} (hl : t.get? l = some .directory) :
    t.get? l.dropLast = some .directory := by
  rcases mem_keys_of_get? hl with hmem | ⟨habove, -⟩
  · exact h.parent l hmem
  · exact get?_of_above ((List.dropLast_prefix l).trans habove)

/-- All that is above something is a directory. -/
theorem above (h : t.Sound) {l : Location} {below : List String} {node : Node α}
    (hl : t.get? (l ++ below) = some node) (hbelow : below ≠ []) : t.get? l = some .directory := by
  induction below using List.reverseRecOn generalizing node with
  | nil => exact absurd rfl hbelow
  | append_singleton below name ih =>
    have hholder : t.get? (l ++ below) = some .directory := by
      rcases mem_keys_of_get? hl with hmem | ⟨habove, -⟩
      · simpa [← List.append_assoc] using h.parent _ hmem
      · exact get?_of_above ((by simp : l ++ below <+: l ++ (below ++ [name])).trans habove)
    by_cases hnil : below = []
    · simpa [hnil] using hholder
    · exact ih hholder hnil

end Sound

/-! ### Following paths -/

/-- Follow pieces one after another. -/
def walk (t : FileTree α) (l : Location) (pieces : List String) : Except IoError Location :=
  pieces.foldlM t.follow l

@[simp] theorem walk_nil (l : Location) : t.walk l [] = .ok l := rfl

theorem walk_cons_eq_ok_iff {l m : Location} {piece : String} {pieces : List String} :
    t.walk l (piece :: pieces) = .ok m ↔ ∃ n, t.follow l piece = .ok n ∧ t.walk n pieces = .ok m := by
  rw [walk, List.foldlM_cons, bind_eq_ok_iff]
  rfl

theorem walk_append_eq_ok_iff {l m : Location} {front back : List String} :
    t.walk l (front ++ back) = .ok m ↔ ∃ n, t.walk l front = .ok n ∧ t.walk n back = .ok m := by
  rw [walk, List.foldlM_append, bind_eq_ok_iff]
  rfl

theorem find_eq_ok_iff {path : String} {l : Location} :
    t.find path = .ok l ↔
      checkPath path = .ok () ∧ t.walk (t.start path) (Path.pieces path) = .ok l := by
  rw [find, seq_eq_ok_iff]
  rfl

theorem checkPath_eq_ok_iff {path : String} : checkPath path = .ok () ↔
    '\x00' ∉ path.toList ∧ path ≠ "" ∧ path.utf8ByteSize < pathLimit := by
  rw [checkPath]
  split
  · next hnul => simp [hnul]
  split
  · next hempty => simp [String.isEmpty_iff.1 hempty]
  split
  · next hnul hempty hlong => simp [Nat.not_lt.2 hlong]
  · next hnul hempty hshort =>
    have hempty : path ≠ "" := fun heq => hempty (by rw [heq]; rfl)
    simp [hnul, hempty, Nat.not_le.1 hshort]

theorem checkDirectory_eq_ok_iff {l : Location} :
    t.checkDirectory l = .ok () ↔ t.get? l = some .directory := by
  unfold checkDirectory
  split <;> simp [*]

theorem slot_eq_ok_iff {l m : Location} {name : String} :
    slot l name = .ok m ↔ name.utf8ByteSize ≤ nameLimit ∧ m = l ++ [name] := by
  rw [slot]
  split
  · next hlong => simp [Nat.not_le.2 hlong]
  · next hshort => simp [Nat.not_lt.1 hshort, eq_comm]

/-- Where a piece leads. -/
theorem follow_eq_ok_iff {l m : Location} {piece : String} :
    t.follow l piece = .ok m ↔ t.get? l = some .directory ∧
      (Path.isStep piece = false ∧ m = l ∨ piece = ".." ∧ m = l.dropLast ∨
        Path.isStep piece = true ∧ piece ≠ ".." ∧ piece.utf8ByteSize ≤ nameLimit ∧ m = l ++ [piece] ∧
          (t.get? m).isSome = true) := by
  have hskip : Path.isStep piece = false ↔ piece = "" ∨ piece = "." := by
    rw [Path.isStep, Bool.and_eq_false_iff, bne_eq_false_iff_eq, bne_eq_false_iff_eq]
  rw [follow, seq_eq_ok_iff, checkDirectory_eq_ok_iff]
  refine and_congr_right fun _ => ?_
  split
  · next hpiece =>
    constructor
    · intro h
      exact .inl ⟨hskip.2 hpiece, (Except.ok.inj h).symm⟩
    · rintro (⟨-, rfl⟩ | ⟨rfl, -⟩ | ⟨hstep, -⟩)
      · rfl
      · exact absurd hpiece (by decide)
      · exact absurd (hskip.2 hpiece) (by simp [hstep])
  · next hpiece =>
    have hstep : Path.isStep piece = true := by rw [← Bool.not_eq_false, hskip]; exact hpiece
    split
    · next hdots =>
      subst hdots
      constructor
      · intro h
        exact .inr (.inl ⟨rfl, (Except.ok.inj h).symm⟩)
      · rintro (⟨hnot, -⟩ | ⟨-, rfl⟩ | ⟨-, hne, -⟩)
        · exact absurd hstep (by simp [hnot])
        · rfl
        · exact absurd rfl hne
    · next hdots =>
      rw [bind_eq_ok_iff]
      simp only [slot_eq_ok_iff, hstep, hdots, reduceCtorEq, false_and, false_or, true_and]
      constructor
      · rintro ⟨n, ⟨hshort, rfl⟩, h⟩
        split at h
        · next hsome =>
          cases h
          exact ⟨hdots, hshort, rfl, hsome⟩
        · cases h
      · rintro ⟨-, hshort, rfl, hsome⟩
        exact ⟨_, ⟨hshort, rfl⟩, by rw [if_pos hsome]; rfl⟩

/-- A piece that is passed over leads nowhere else. -/
theorem follow_of_not_isStep {l : Location} {piece : String} (h : Path.isStep piece = false)
    (hl : t.get? l = some .directory) : t.follow l piece = .ok l :=
  follow_eq_ok_iff.2 ⟨hl, .inl ⟨h, rfl⟩⟩

/-- Nothing leads on from what is no directory. -/
theorem walk_of_not_directory {l m : Location} {pieces : List String}
    (hl : t.get? l ≠ some .directory) (h : t.walk l pieces = .ok m) : pieces = [] ∧ m = l := by
  cases pieces with
  | nil => exact ⟨rfl, (Except.ok.inj h).symm⟩
  | cons piece pieces =>
    obtain ⟨n, hn, -⟩ := walk_cons_eq_ok_iff.1 h
    exact absurd (follow_eq_ok_iff.1 hn).1 hl

/-- **Between directories, only the steps of a path count.** -/
theorem walk_steps {l m : Location} (hl : t.get? l = some .directory)
    (hm : t.get? m = some .directory) (pieces : List String) :
    t.walk l (pieces.filter Path.isStep) = .ok m ↔ t.walk l pieces = .ok m := by
  induction pieces generalizing l with
  | nil => rfl
  | cons piece pieces ih =>
    rw [List.filter_cons]
    split
    · -- behind a step, both go on from a directory, or they end at the same
      rw [walk_cons_eq_ok_iff, walk_cons_eq_ok_iff]
      refine exists_congr fun n => and_congr_right fun _ => ?_
      by_cases hn : t.get? n = some .directory
      · exact ih hn
      · have hends {pieces : List String} : t.walk n pieces ≠ .ok m := by
          intro hwalk
          obtain ⟨-, rfl⟩ := walk_of_not_directory hn hwalk
          exact hn hm
        simp [hends]
    · next hpiece =>
      rw [ih hl, walk_cons_eq_ok_iff, follow_of_not_isStep (by simpa using hpiece) hl]
      simp

/-! ### Directories that paths reach -/

/-- The steps of a path lead to a directory. -/
structure Reaches (t : FileTree α) (path : String) (l : Location) : Prop where
  walk : t.walk (t.start path) (Path.steps path) = .ok l
  directory : t.get? l = some .directory

theorem reaches_of_find {path : String} {l : Location} (hl : t.find path = .ok l)
    (hdirectory : t.get? l = some .directory) : t.Reaches path l := by
  refine ⟨?_, hdirectory⟩
  rw [← Path.filter_pieces, walk_steps (get?_start path) hdirectory]
  exact (find_eq_ok_iff.1 hl).2

section Join

variable {directory path name : String} {l m : Location}

theorem start_join (hpath : Path.isAbsolute path = false) :
    t.start (Path.join directory path) = t.start directory := by
  rw [start, start, Path.isAbsolute_join hpath]

/-- **A path seen from a directory** is followed from where the directory is. -/
theorem find_join (hl : t.Reaches directory l) (hpath : Path.isAbsolute path = false) :
    t.find (Path.join directory path) = .ok m ↔
      checkPath (Path.join directory path) = .ok () ∧ t.walk l (Path.pieces path) = .ok m := by
  obtain ⟨front, hpieces, hfront⟩ := Path.pieces_join directory hpath
  have hwalk : t.walk (t.start directory) front = .ok l := by
    rw [← walk_steps (get?_start directory) hl.directory, hfront]
    exact hl.walk
  rw [find_eq_ok_iff, start_join hpath, hpieces, walk_append_eq_ok_iff, hwalk]
  simp

theorem walk_name (hl : t.get? l = some .directory) (hname : Path.IsName name) :
    t.walk l [name] = .ok m ↔
      name.utf8ByteSize ≤ nameLimit ∧ m = l ++ [name] ∧ (t.get? m).isSome = true := by
  rw [walk_cons_eq_ok_iff]
  simp [follow_eq_ok_iff, hl, hname.isStep, hname.ne_dots]

/-- A name seen from a directory leads to what the directory holds under that name. -/
theorem find_join_name (hl : t.Reaches directory l) (hname : Path.IsName name) :
    t.find (Path.join directory name) = .ok m ↔ checkPath (Path.join directory name) = .ok () ∧
      name.utf8ByteSize ≤ nameLimit ∧ m = l ++ [name] ∧ (t.get? m).isSome = true := by
  rw [find_join hl hname.not_isAbsolute, Path.pieces_name hname, walk_name hl.directory hname]

/-- A shorter name in the same directory is within reach as well. -/
theorem checkPath_join {long : String} (hname : Path.IsName name) (hlong : Path.IsName long)
    (hle : name.utf8ByteSize ≤ long.utf8ByteSize)
    (h : checkPath (Path.join directory long) = .ok ()) :
    checkPath (Path.join directory name) = .ok () := by
  obtain ⟨front, hfront⟩ := Path.exists_join directory
  rw [hfront long hlong.not_isAbsolute, checkPath_eq_ok_iff] at h
  rw [hfront name hname.not_isAbsolute, checkPath_eq_ok_iff]
  obtain ⟨hnul, -, hlength⟩ := h
  rw [String.toList_append, List.mem_append, not_or] at hnul
  rw [String.utf8ByteSize_append] at hlength
  refine ⟨?_, ?_, ?_⟩
  · rw [String.toList_append, List.mem_append, not_or]
    exact ⟨hnul.1, hname.no_nul⟩
  · intro hempty
    exact hname.ne_empty (String.append_eq_empty_iff.1 hempty).2
  · rw [String.utf8ByteSize_append]
    omega

theorem reaches_join (hl : t.Reaches directory l) (hname : Path.IsName name)
    (hshort : name.utf8ByteSize ≤ nameLimit) (hm : t.get? (l ++ [name]) = some .directory) :
    t.Reaches (Path.join directory name) (l ++ [name]) := by
  refine ⟨?_, hm⟩
  obtain ⟨front, hpieces, hfront⟩ := Path.pieces_join directory hname.not_isAbsolute
  have hsteps : Path.steps (Path.join directory name) = Path.steps directory ++ [name] := by
    rw [← Path.filter_pieces, hpieces, Path.pieces_name hname, List.filter_append, hfront]
    simp [hname.isStep]
  rw [start_join hname.not_isAbsolute, hsteps, walk_append_eq_ok_iff]
  exact ⟨l, hl.walk, (walk_name hl.directory hname).2 ⟨hshort, rfl, by simp [hm]⟩⟩

end Join

/-! ### Locations below a directory -/

/-- The path of a location from the path of a directory above it. -/
def pathBelow (path : String) (root l : Location) : String :=
  (l.drop root.length).foldl Path.join path

@[simp] theorem pathBelow_append (path : String) (root : Location) (below : List String) :
    pathBelow path root (root ++ below) = below.foldl Path.join path := by
  rw [pathBelow, List.drop_left]

theorem pathBelow_concat {path name : String} {root holder : Location} (h : root <+: holder) :
    pathBelow path root (holder ++ [name]) = Path.join (pathBelow path root holder) name := by
  obtain ⟨below, rfl⟩ := h
  rw [List.append_assoc, pathBelow_append, pathBelow_append, List.foldl_append]
  rfl

/-- Names below a directory are components behind those of the directory. -/
theorem components_foldl (path : String) {below : List String} (h : ∀ name ∈ below, Path.IsName name) :
    Path.components (below.foldl Path.join path) = Path.components path ++ below := by
  induction below generalizing path with
  | nil => simp
  | cons name below ih =>
    rw [List.foldl_cons, ih (Path.join path name) fun n hn => h n (List.mem_cons_of_mem _ hn),
      Path.components_join path (h name List.mem_cons_self), List.append_assoc]
    rfl

namespace Sound

variable {path name : String} {root l m : Location} {node : Node α}

/-- Names lead from a directory to what is below it. -/
theorem reaches_foldl (h : t.Sound) (hroot : t.Reaches path root) {below : List String}
    (hnames : ∀ name ∈ below, Path.IsName name ∧ name.utf8ByteSize ≤ nameLimit)
    (hbelow : t.get? (root ++ below) = some .directory) :
    t.Reaches (below.foldl Path.join path) (root ++ below) := by
  induction below using List.reverseRecOn with
  | nil => simpa using hroot
  | append_singleton below name ih =>
    rw [List.foldl_append, ← List.append_assoc]
    rw [← List.append_assoc] at hbelow
    obtain ⟨hname, hshort⟩ := hnames name (by simp)
    have hholder : t.get? (root ++ below) = some .directory := h.above hbelow (by simp)
    exact reaches_join (ih (fun n hn => hnames n (List.mem_append_left _ hn)) hholder) hname hshort
      hbelow

/-- The path of a directory leads there. -/
theorem reaches_pathBelow (h : t.Sound) (hroot : t.Reaches path root) {holder : Location}
    (hholder : root <+: holder) (hl : holder ++ [name] ∈ t.entries.keys) :
    t.Reaches (pathBelow path root holder) holder := by
  obtain ⟨below, rfl⟩ := hholder
  rw [pathBelow_append]
  refine h.reaches_foldl hroot (fun n hn => ?_) (by simpa using h.parent _ hl)
  exact h.names _ hl n (by simp [hn])

/-- The path of a location leads there, unless it is too long. -/
theorem find_pathBelow (h : t.Sound) (hroot : t.Reaches path root) {holder : Location}
    (hholder : root <+: holder) (hnode : t.get? (holder ++ [name]) = some node)
    (hl : holder ++ [name] ∈ t.entries.keys) :
    t.find (pathBelow path root (holder ++ [name])) = .ok m ↔
      checkPath (pathBelow path root (holder ++ [name])) = .ok () ∧ m = holder ++ [name] := by
  obtain ⟨hname, hshort⟩ := h.names _ hl name (by simp)
  rw [pathBelow_concat hholder, find_join_name (h.reaches_pathBelow hroot hholder hl) hname]
  refine and_congr_right fun _ => ⟨fun ⟨_, hm, _⟩ => hm, fun hm => ⟨hshort, hm, ?_⟩⟩
  simp [hm, hnode]

end Sound

/-- **The parent of a file's path leads to the directory that holds the file,** and the last piece of the
path is the file's name. -/
theorem Sound.reaches_parent (h : t.Sound) {path : String} {l : Location} {contents : α}
    (hl : t.find path = .ok l) (hfile : t.get? l = some (.file contents)) :
    ∃ holder front name, l = holder ++ [name] ∧ Path.pieces path = front ++ [name] ∧
      Path.IsName name ∧ t.Reaches ((Path.parent? path).getD "") holder := by
  obtain ⟨-, hwalk⟩ := find_eq_ok_iff.1 hl
  rcases List.eq_nil_or_concat (Path.pieces path) with hnil | ⟨front, name, hpieces⟩
  · rw [hnil, walk_nil] at hwalk
    cases hwalk
    rw [get?_start] at hfile
    cases hfile
  rw [List.concat_eq_append] at hpieces
  rw [hpieces, walk_append_eq_ok_iff] at hwalk
  obtain ⟨holder, hfront, hlast⟩ := hwalk
  obtain ⟨n, hname, hn⟩ := walk_cons_eq_ok_iff.1 hlast
  cases hn
  obtain ⟨hholder, hcases⟩ := follow_eq_ok_iff.1 hname
  rcases hcases with ⟨-, rfl⟩ | ⟨-, rfl⟩ | ⟨-, -, -, rfl, -⟩
  · rw [hholder] at hfile
    cases hfile
  · rw [h.dropLast hholder] at hfile
    cases hfile
  · have hisName : Path.IsName name := (h.names _ (mem_keys_of_file hfile) name (by simp)).1
    obtain ⟨parent, hparent, hsteps, habsolute⟩ := Path.steps_parent hpieces hisName
    have hstart : t.start parent = t.start path := by rw [start, start, habsolute]
    refine ⟨holder, front, name, rfl, hpieces, hisName, ?_, hholder⟩
    rw [hparent, Option.getD_some, hsteps, hstart, walk_steps (get?_start path) hholder]
    exact hfront

/-- The directory of a path is its parent. -/
theorem Reaches.directoryOf {path : String} {l : Location}
    (h : t.Reaches ((Path.parent? path).getD "") l) : t.Reaches (Path.directoryOf path) l := by
  have hdot : t.Reaches "" l → t.Reaches "." l := fun h => ⟨h.walk, h.directory⟩
  unfold Path.directoryOf
  split
  · next hparent =>
    rw [hparent] at h
    exact hdot h
  · next hparent =>
    rw [hparent] at h
    exact h
  · next hparent =>
    rw [hparent] at h
    exact hdot h

/-! ### Reading -/

theorem look_eq_some_iff {path : String} {node : Node α} :
    t.look path = some node ↔ ∃ l, t.find path = .ok l ∧ t.get? l = some node := by
  simp [look, Option.bind_eq_some_iff, toOption_eq_some_iff]

theorem readText_eq_ok_iff [TextContents α] {path text : String} :
    t.readText path = .ok text ↔ ∃ contents, t.look path = some (.file contents) ∧
      TextContents.text? contents = some text := by
  have hread {l : Location} {contents : α} :
      t.readAt l = .ok contents ↔ t.get? l = some (.file contents) := by
    unfold readAt
    split <;> simp [*]
  rw [readText, bind_eq_ok_iff, read]
  refine exists_congr fun contents => ?_
  simp only [bind_eq_ok_iff, hread, look_eq_some_iff]
  refine and_congr_right fun _ => ?_
  split
  · next htext => simp [htext, pure, Except.pure]
  · next htext => simp [htext, throw, throwThe, MonadExceptOf.throw]

/-! ### Trees without some files -/

/-- The tree without what is at some locations. -/
def without (t : FileTree α) (gone : List Location) : FileTree α :=
  { t with entries := t.entries.filter fun p => p.1 ∉ gone }

/-- There is a file at each of these locations. -/
def AllFiles (t : FileTree α) (gone : List Location) : Prop :=
  ∀ l ∈ gone, ∃ contents, t.get? l = some (.file contents)

@[simp] theorem without_nil : t.without [] = t := by
  rw [without, List.filter_eq_self.2 fun _ _ => by simp]

theorem erase_without (gone : List Location) (l : Location) :
    (t.without gone).erase l = t.without (l :: gone) := by
  rw [erase, without, without, Table.erase_eq_filter, List.filter_filter]
  simp

section Without

variable {gone : List Location} {path : String} {l m : Location}

theorem AllFiles.get?_without (h : t.AllFiles gone) (l : Location) :
    (t.without gone).get? l = if l ∈ gone then none else t.get? l := by
  by_cases habove : l <+: t.current
  · have hkept : l ∉ gone := by
      intro hgone
      obtain ⟨contents, hfile⟩ := h l hgone
      rw [get?_of_above habove] at hfile
      cases hfile
    rw [if_neg hkept, get?_of_above habove, get?_of_above (t := t.without gone) habove]
  · rw [get?_of_notAbove habove, get?_of_notAbove (t := t.without gone) habove, without,
      Table.get?_filter fun l => decide (l ∉ gone)]
    by_cases hgone : l ∈ gone <;> simp [hgone]

theorem AllFiles.directory_without (h : t.AllFiles gone) (l : Location) :
    (t.without gone).get? l = some .directory ↔ t.get? l = some .directory := by
  rw [h.get?_without]
  split
  · next hgone =>
    obtain ⟨contents, hfile⟩ := h l hgone
    simp [hfile]
  · rfl

theorem AllFiles.not_mem_of_directory (h : t.AllFiles gone) (hl : t.get? l = some .directory) :
    l ∉ gone := by
  intro hgone
  obtain ⟨contents, hfile⟩ := h l hgone
  rw [hl] at hfile
  cases hfile

theorem follow_without (hsound : t.Sound) (h : t.AllFiles gone) {piece : String} :
    (t.without gone).follow l piece = .ok m ↔ t.follow l piece = .ok m ∧ m ∉ gone := by
  have hsome : ((t.without gone).get? m).isSome = true ↔ (t.get? m).isSome = true ∧ m ∉ gone := by
    rw [h.get?_without]
    split
    · next hgone => simp [hgone]
    · next hkept => simp [hkept]
  rw [follow_eq_ok_iff, follow_eq_ok_iff, h.directory_without, hsome]
  constructor
  · rintro ⟨hl, ⟨hskip, rfl⟩ | ⟨hdots, rfl⟩ | ⟨hstep, hdots, hshort, rfl, hnode, hkept⟩⟩
    · exact ⟨⟨hl, .inl ⟨hskip, rfl⟩⟩, h.not_mem_of_directory hl⟩
    · exact ⟨⟨hl, .inr (.inl ⟨hdots, rfl⟩)⟩, h.not_mem_of_directory (hsound.dropLast hl)⟩
    · exact ⟨⟨hl, .inr (.inr ⟨hstep, hdots, hshort, rfl, hnode⟩)⟩, hkept⟩
  · rintro ⟨⟨hl, hskip | hdots | ⟨hstep, hdots, hshort, hm, hnode⟩⟩, hkept⟩
    · exact ⟨hl, .inl hskip⟩
    · exact ⟨hl, .inr (.inl hdots)⟩
    · exact ⟨hl, .inr (.inr ⟨hstep, hdots, hshort, hm, hnode, hkept⟩)⟩

/-- Pieces lead to the same without some files, unless they lead to one of them. -/
theorem walk_without (hsound : t.Sound) (h : t.AllFiles gone) (hl : l ∉ gone) (pieces : List String) :
    (t.without gone).walk l pieces = .ok m ↔ t.walk l pieces = .ok m ∧ m ∉ gone := by
  induction pieces generalizing l with
  | nil => exact ⟨fun hwalk => ⟨hwalk, Except.ok.inj hwalk ▸ hl⟩, And.left⟩
  | cons piece pieces ih =>
    simp only [walk_cons_eq_ok_iff, follow_without hsound h]
    constructor
    · rintro ⟨n, ⟨hn, hkept⟩, hwalk⟩
      obtain ⟨hwalk, hm⟩ := (ih hkept).1 hwalk
      exact ⟨⟨n, hn, hwalk⟩, hm⟩
    · rintro ⟨⟨n, hn, hwalk⟩, hm⟩
      -- nothing leads on from a file
      have hkept : n ∉ gone := by
        intro hgone
        obtain ⟨contents, hfile⟩ := h n hgone
        obtain ⟨-, rfl⟩ := walk_of_not_directory (by simp [hfile]) hwalk
        exact hm hgone
      exact ⟨n, ⟨hn, hkept⟩, (ih hkept).2 ⟨hwalk, hm⟩⟩

/-- **A path leads to the same without some files,** unless it leads to one of them. -/
theorem find_without (hsound : t.Sound) (h : t.AllFiles gone) :
    (t.without gone).find path = .ok l ↔ t.find path = .ok l ∧ l ∉ gone := by
  have hstart : t.start path ∉ gone := h.not_mem_of_directory (get?_start path)
  have hsame : (t.without gone).start path = t.start path := rfl
  rw [find_eq_ok_iff, find_eq_ok_iff, hsame, walk_without hsound h hstart, and_assoc]

/-- What a path leads to is not changed by removing other files. -/
theorem look_without (hsound : t.Sound) (h : t.AllFiles gone)
    (hkept : ∀ l, t.find path = .ok l → l ∉ gone) : (t.without gone).look path = t.look path := by
  refine Option.ext fun node => ?_
  rw [look_eq_some_iff, look_eq_some_iff]
  refine exists_congr fun l => ?_
  rw [find_without hsound h, h.get?_without]
  constructor
  · rintro ⟨⟨hl, hnot⟩, hnode⟩
    rw [if_neg hnot] at hnode
    exact ⟨hl, hnode⟩
  · rintro ⟨hl, hnode⟩
    exact ⟨⟨hl, hkept l hl⟩, by rw [if_neg (hkept l hl), hnode]⟩

/-- The text of a file is not changed by removing other files. -/
theorem readText_without [TextContents α] (hsound : t.Sound) (h : t.AllFiles gone)
    (hkept : ∀ l, t.find path = .ok l → l ∉ gone) {text : String} :
    (t.without gone).readText path = .ok text ↔ t.readText path = .ok text := by
  rw [readText_eq_ok_iff, readText_eq_ok_iff, look_without hsound h hkept]

theorem remove_eq_ok_iff {t' : FileTree α} : t.remove path = .ok t' ↔
    ∃ l contents, t.find path = .ok l ∧ t.get? l = some (.file contents) ∧ t' = t.erase l := by
  rw [remove, bind_eq_ok_iff]
  refine exists_congr fun l => ?_
  rw [exists_and_left]
  refine and_congr_right fun _ => ?_
  split
  · next contents hfile => simp [hfile, pure, Except.pure, eq_comm]
  · next hdirectory => simp [hdirectory, throw, throwThe, MonadExceptOf.throw]
  · next hnone => simp [hnone, throw, throwThe, MonadExceptOf.throw]

/-- A file is removed by its path without some files as well, unless it is one of them. -/
theorem remove_without (hsound : t.Sound) (h : t.AllFiles gone) {t' : FileTree α} :
    (t.without gone).remove path = .ok t' ↔ ∃ l contents, t.find path = .ok l ∧ l ∉ gone ∧
      t.get? l = some (.file contents) ∧ t' = t.without (l :: gone) := by
  rw [remove_eq_ok_iff]
  refine exists_congr fun l => exists_congr fun contents => ?_
  rw [find_without hsound h, h.get?_without, erase_without]
  constructor
  · rintro ⟨⟨hl, hkept⟩, hfile, rfl⟩
    rw [if_neg hkept] at hfile
    exact ⟨hl, hkept, hfile, rfl⟩
  · rintro ⟨hl, hkept, hfile, rfl⟩
    exact ⟨⟨hl, hkept⟩, by rwa [if_neg hkept], rfl⟩

/-- A tree without some files is sound. -/
theorem Sound.without (hsound : t.Sound) (h : t.AllFiles gone) : (t.without gone).Sound := by
  have hkeys : ∀ l ∈ (t.without gone).entries.keys, l ∈ t.entries.keys := by
    intro l hl
    obtain ⟨p, hp, rfl⟩ := List.mem_map.1 hl
    exact List.mem_map_of_mem (List.mem_filter.1 hp).1
  refine ⟨?_, fun l hl => hsound.notAbove l (hkeys l hl), fun l hl => ?_,
    fun l hl => hsound.names l (hkeys l hl), hsound.currentNames⟩
  · exact hsound.nodup.sublist (List.filter_sublist.map Prod.fst)
  · rw [h.directory_without]
    exact hsound.parent l (hkeys l hl)

theorem without_congr {other : List Location} (h : ∀ l, l ∈ gone ↔ l ∈ other) :
    t.without gone = t.without other := by
  simp only [without, h]

end Without

/-! ### The order of directories -/

/-- The same tree, with its directories listed in any order. -/
structure Relists (listed t : FileTree α) : Prop where
  current : listed.current = t.current
  perm : listed.entries.Perm t.entries

namespace Relists

variable {listed : FileTree α}

theorem refl (t : FileTree α) : t.Relists t := ⟨rfl, .refl _⟩

theorem without (h : listed.Relists t) (gone : List Location) :
    (listed.without gone).Relists (t.without gone) :=
  ⟨h.current, h.perm.filter _⟩

/-- There is the same at each location. -/
theorem get? (h : listed.Relists t) (hsound : t.Sound) (l : Location) : listed.get? l = t.get? l := by
  rw [FileTree.get?, FileTree.get?, h.current, Table.get?_of_perm hsound.nodup h.perm]

/-- Paths lead to the same. -/
theorem find (h : listed.Relists t) (hsound : t.Sound) (path : String) :
    listed.find path = t.find path := by
  have hfollow : listed.follow = t.follow := by
    funext l piece
    simp only [follow, checkDirectory, h.get? hsound]
  rw [FileTree.find, FileTree.find, hfollow, start, start, h.current]

theorem readText [TextContents α] (h : listed.Relists t) (hsound : t.Sound) (path : String) :
    listed.readText path = t.readText path := by
  simp only [FileTree.readText, read, readAt, h.find hsound, h.get? hsound]

theorem sound (h : listed.Relists t) (hsound : t.Sound) : listed.Sound := by
  have hkeys : listed.entries.keys.Perm t.entries.keys := h.perm.map Prod.fst
  refine ⟨hkeys.nodup_iff.2 hsound.nodup, fun l hl => ?_, fun l hl => ?_, fun l hl => ?_,
    h.current ▸ hsound.currentNames⟩
  · rw [h.current]
    exact hsound.notAbove l (hkeys.mem_iff.1 hl)
  · rw [h.get? hsound]
    exact hsound.parent l (hkeys.mem_iff.1 hl)
  · exact hsound.names l (hkeys.mem_iff.1 hl)

end Relists

end Quasiquote.FileTree
