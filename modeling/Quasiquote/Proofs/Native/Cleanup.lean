import Quasiquote.Native.Unit
import Quasiquote.Proofs.Files.Sound
import Quasiquote.Proofs.Native.Sweep

/-!
# What a cleanup removes

A cleanup keeps every artifact that some site can still load, and it removes all others.

## Main Definitions

* `Native.Stale` — an artifact that a cleanup meets and its module does not keep
* `Native.Cleanable` — a tree in which nothing keeps a cleanup from its work

## Main Statements

* `Native.cleanup_keeps` — what a site hands on keeps its artifact and its source
* `Native.cleanup_exact` — a cleanup removes the stale artifacts, in whichever order it meets them

## Design Notes

A module is read when its first artifact is met, and by then others may be gone. What one site hands on is
enough for `cleanup_keeps`, so that it holds of every tree. If a site names a file that is itself named like
an artifact, the order in which files are met decides whether the module still finds it. `Cleanable.plain`
rules that out.
-/

namespace Quasiquote.Native

open FileTree (pathBelow)

theorem sweepRoot_eq_ok_iff {α : Type} {t : FileTree α} {path : String} {root : Location} :
    sweepRoot t path = .ok root ↔ t.find path = .ok root ∧ t.get? root = some .directory := by
  rw [sweepRoot, bind_eq_ok_iff]
  simp only [seq_eq_ok_iff, FileTree.checkDirectory_eq_ok_iff]
  constructor
  · rintro ⟨l, hl, hdirectory, hroot⟩
    cases hroot
    exact ⟨hl, hdirectory⟩
  · rintro ⟨hl, hdirectory⟩
    exact ⟨root, hl, hdirectory, rfl⟩

/-- What the file name of a frame tells of the artifacts of its module. -/
theorem moduleStem_eq {α : Type} {t : FileTree α} {f : Frame} {stem : String} {holder : Location}
    (hsound : t.Sound) (hstem : stem ≠ "")
    (hmodule : t.find f.filename = .ok (holder ++ [moduleFile stem])) {contents : α}
    (hfile : t.get? (holder ++ [moduleFile stem]) = some (.file contents)) :
    moduleStem f = stem ∧ t.Reaches (Path.directoryOf f.filename) holder := by
  obtain ⟨holder', front, name, hl, hpieces, hname, hholder⟩ := hsound.reaches_parent hmodule hfile
  obtain ⟨rfl, hlast⟩ := List.append_inj' hl rfl
  obtain rfl : moduleFile stem = name := List.head_eq_of_cons_eq hlast
  refine ⟨?_, hholder.directoryOf⟩
  rw [moduleStem, Path.stem?, Path.fileName?_of_pieces hpieces hname, Option.map_some, moduleFile,
    Path.stemOf_append hstem (by decide)]
  rfl

variable {α : Type} [TextContents α] {t : FileTree α} {path : String} {root : Location} {recurse : Bool}

/-- The run of a sweep from its beginning. -/
def sweepAll (t : FileTree α) (path : String) (root : Location) (recurse : Bool) :
    Except CacheError Unit × Sweep α :=
  Sweep.run { files := t, modules := [], removed := [] } (candidates t path root recurse)

theorem cleanup_of_sweepRoot (h : sweepRoot t path = .ok root) :
    cleanup t path recurse =
      { outcome := (sweepAll t path root recurse).1.map fun _ =>
          sortPaths (sweepAll t path root recurse).2.removed
        files := (sweepAll t path root recurse).2.files } := by
  rw [cleanup, h]
  rfl

theorem files_cleanup_of_error {e : IoError} (h : sweepRoot t path = .error e) :
    (cleanup t path recurse).files = t := by
  rw [cleanup, h]

/-- **A cleanup removes only what is discarded,** whether it fails or not. -/
theorem files_cleanup (hsound : t.Sound) (hroot : t.find path = .ok root) (recurse : Bool) :
    ∃ gone, (cleanup t path recurse).files = t.without gone ∧ AllArtifacts t gone ∧
      ∀ l ∈ gone, Discarded t path root recurse l := by
  cases hstart : sweepRoot t path with
  | error e => exact ⟨[], by simp [files_cleanup_of_error hstart], allArtifacts_nil, by simp⟩
  | ok root' =>
    obtain ⟨hfind, hdirectory⟩ := sweepRoot_eq_ok_iff.1 hstart
    obtain rfl : root' = root := Except.ok.inj (hfind.symm.trans hroot)
    have hwithin : (sweepAll t path root' recurse).2.Within t path root' recurse :=
      Sweep.within_run hsound (FileTree.reaches_of_find hfind hdirectory) (fun _ hc => hc)
        Sweep.within_start
    refine ⟨_, by rw [cleanup_of_sweepRoot hstart, hwithin.files], hwithin.allArtifacts, ?_⟩
    intro l hl
    obtain ⟨p, hp, rfl⟩ := List.mem_map.1 hl
    exact (hwithin.removed p hp).2

/-! ### What is kept -/

section Kept

variable {f : Frame} {stem body : String} {s : Site} {holder below : Location}

/-- The file of a module that holds sites is there. -/
theorem HoldsSite.file {filename : String} {l : Location} (h : HoldsSite t filename s)
    (hl : t.find filename = .ok l) : ∃ contents, t.get? l = some (.file contents) := by
  obtain ⟨source, sites, hsource, -⟩ := h
  obtain ⟨contents, hlook, -⟩ := FileTree.readText_eq_ok_iff.1 hsource
  obtain ⟨l', hl', hfile⟩ := FileTree.look_eq_some_iff.1 hlook
  rw [hl] at hl'
  exact ⟨contents, Except.ok.inj hl' ▸ hfile⟩

/-- The artifact for what a site hands on is never discarded. -/
theorem Hands.not_discarded (hsound : t.Sound) (hroot : t.Reaches path root) (hbelow : root <+: holder)
    {filename : String} (hstem : stem ≠ "") (hmodule : t.find filename = .ok (holder ++ [moduleFile stem]))
    (hs : HoldsSite t filename s)
    (hbody : Hands t filename (Path.join (pathBelow path root holder) (moduleFile stem)) s body)
    (arguments : List String) {extension : String} (hextension : extension ∈ knownExtensions) :
    ¬ Discarded t path root recurse (holder ++
      [(ArtifactName.ofBody s.kind stem body (interfaceTag arguments)).stem ++ "." ++ extension]) := by
  rintro ⟨n, gone, hmet, hgone, hdead, hcheck⟩
  obtain ⟨contents, hfile⟩ := hs.file hmodule
  have hkey := FileTree.mem_keys_of_file hfile
  -- the name of the artifact is read back, so that its module is found again
  have hparse := ArtifactName.parse?_of_stem
    (ArtifactName.isWellFormed_ofBody s.kind hstem body arguments)
    (underscore_notMem_interfaceTag arguments) hextension
  obtain rfl : ArtifactName.ofBody s.kind stem body (interfaceTag arguments) = n := by
    have hnamed := hmet.named
    rw [nameAt?_concat, hparse] at hnamed
    exact Option.some.inj hnamed
  have hsibling : t.find (Path.join (pathBelow path root holder) (moduleFile stem)) =
      .ok (holder ++ [moduleFile stem]) := by
    obtain ⟨artifact, hartifact⟩ := hmet.file
    obtain ⟨hname, hshort⟩ := hsound.names _ hkey (moduleFile stem) (by simp)
    obtain ⟨hartifactName, -⟩ := hsound.names _ (FileTree.mem_keys_of_file hartifact) _
      (List.mem_append_right _ List.mem_cons_self)
    rw [FileTree.pathBelow_concat hbelow] at hcheck
    have hreach := FileTree.checkPath_join hname hartifactName (ArtifactName.module_size_le hparse) hcheck
    exact (FileTree.find_join_name (hsound.reaches_pathBelow hroot hbelow hkey) hname).2
      ⟨hreach, hshort, rfl, by simp [hfile]⟩
  refine hdead ?_
  rw [siblingModule, List.dropLast_concat]
  exact hbody.live_without hsound hgone hmodule hsibling (by simp [parse?_moduleFile]) hs

/-- **What a site hands on keeps its artifact and its source** through a cleanup of the directory of its
module or of one above it, even if that fails. -/
theorem cleanup_keeps (hsound : t.Sound) (hroot : t.find path = .ok root) (hstem : stem ≠ "")
    (hmodule : t.find f.filename = .ok (root ++ below ++ [moduleFile stem]))
    (hs : HoldsSite t f.filename s)
    (hbody : Hands t f.filename (Path.join (below.foldl Path.join path) (moduleFile stem)) s body)
    (arguments : List String) (recurse : Bool) :
    (cleanup t path recurse).files.look (artifactPathOf arguments s.kind body f) =
        t.look (artifactPathOf arguments s.kind body f) ∧
      (cleanup t path recurse).files.look (sourcePathOf arguments s.kind body f) =
        t.look (sourcePathOf arguments s.kind body f) := by
  obtain ⟨contents, hfile⟩ := hs.file hmodule
  obtain ⟨hstemOf, hdirectory⟩ := moduleStem_eq hsound hstem hmodule hfile
  have hkey := FileTree.mem_keys_of_file hfile
  have hisRoot : t.Reaches path root :=
    FileTree.reaches_of_find hroot (hsound.above (l := root) (by simpa using hfile) (by simp))
  have hbelow : root <+: root ++ below := List.prefix_append _ _
  obtain ⟨gone, hfiles, hgone, hdiscarded⟩ := files_cleanup hsound hroot recurse
  obtain ⟨hname, -⟩ := hsound.names _ hkey (moduleFile stem) (by simp)
  have hfree {c : Char} (hc : c ∉ (moduleFile stem).toList) : c ∉ stem.toList := by
    rw [moduleFile, String.toList_append, String.toList_append] at hc
    exact fun hmem => hc (List.mem_append_left _ (List.mem_append_left _ hmem))
  have hkept {extension : String} (hextension : extension ∈ knownExtensions) :
      (cleanup t path recurse).files.look (Path.join (Path.directoryOf f.filename)
          ((artifactNameOf arguments s.kind body f).stem ++ "." ++ extension)) =
        t.look (Path.join (Path.directoryOf f.filename)
          ((artifactNameOf arguments s.kind body f).stem ++ "." ++ extension)) := by
    rw [hfiles]
    refine FileTree.look_without hsound hgone.allFiles fun l hl hmem => ?_
    rw [artifactNameOf, hstemOf] at hl
    have hartifact := ArtifactName.isName_ofBody s.kind body arguments (hfree hname.no_slash)
      (hfree hname.no_nul) hextension
    obtain ⟨-, -, rfl, -⟩ := (FileTree.find_join_name hdirectory hartifact).1 hl
    rw [← FileTree.pathBelow_append path root below] at hbody
    exact hbody.not_discarded hsound hisRoot hbelow hstem hmodule hs arguments hextension
      (hdiscarded _ hmem)
  refine ⟨hkept (by decide : artifactExtension ∈ knownExtensions), ?_⟩
  rw [sourcePathOf, ArtifactName.sourceFile_eq]
  exact hkept (by decide)

end Kept

/-- A module with a site that names a file. -/
def workSource : String := "# coding: quasiquotes\nx = [$c|b.c|]\n"

/-- The site of `workSource`. -/
def workSite : Site :=
  { kind := .expression, quoter := "c", body := "b.c", column := 4, line := 2, bodyLine := 2,
    sourceLine := "x = [$c|b.c|]", start := 26, stop := 35, newlines := 0 }

/-- The frame in which `workSite` runs. -/
def workFrame : Frame := .ofModule "m" "pkg/m.py" 2

/-- The end of an artifact's name for the contents `1` of the file that `workSite` names. -/
def workTail : String := "_m_6b86b273ff34fce19d6b804eff5a3f57_quasi01-abi1-x86-64-linux.so"

/-- A module, the file that its site names, and artifacts of both kinds for the contents of that file. -/
def workTree : FileTree (List UInt8) where
  current := ["w"]
  entries := [(["w", "pkg"], .directory),
    (["w", "pkg", "m.py"], .file (Utf8.encodeString workSource)),
    (["w", "pkg", "b.c"], .file (Utf8.encodeString "1")),
    (["w", "pkg", "_qq_expr" ++ workTail], .file []),
    (["w", "pkg", "_qq_stmt" ++ workTail], .file [])]

theorem workTree_eq : workTree =
    (((((FileTree.emptyAt ["w"]).plant "pkg/m.py" (Utf8.encodeString workSource)).plant "pkg/b.c"
      (Utf8.encodeString "1")).plant ("pkg/_qq_expr" ++ workTail) []).plant ("pkg/_qq_stmt" ++ workTail) []) := by
  decide +kernel

theorem workTree_sound : workTree.Sound := by
  rw [workTree_eq]
  exact ((((FileTree.sound_emptyAt (by decide +kernel)).plant _ _).plant _ _).plant _ _).plant _ _

theorem findSites_workSource : findSites workSource = .ok [workSite] := by decide +kernel

theorem holdsSite_workTree {modulePath : String} (h : workTree.readText modulePath = .ok workSource) {s : Site} :
    HoldsSite workTree modulePath s ↔ s = workSite := by
  have henabled : Pragma.isEnabled workSource = true := by decide +kernel
  constructor
  · rintro ⟨source, sites, hsource, -, hsites, hs⟩
    rw [h] at hsource
    cases hsource
    rw [findSites_workSource] at hsites
    cases hsites
    exact List.mem_singleton.1 hs
  · rintro rfl
    exact ⟨workSource, _, h, henabled, findSites_workSource, List.mem_singleton.2 rfl⟩

/-- A cleanup of the current directory keeps the artifact, although the path of its module is another one. -/
theorem workTree_keeps :
    workTree.isFile (artifactPathOf [] .expression "1" workFrame) = true ∧
    (cleanup workTree "." true).files.look (artifactPathOf [] .expression "1" workFrame) =
      workTree.look (artifactPathOf [] .expression "1" workFrame) ∧
    (cleanup workTree "." true).files.look (sourcePathOf [] .expression "1" workFrame) =
      workTree.look (sourcePathOf [] .expression "1" workFrame) := by
  have hroot : workTree.find "." = .ok ["w"] := by decide +kernel
  have hmodule : workTree.find workFrame.filename = .ok (["w"] ++ ["pkg"] ++ [moduleFile "m"]) := by
    decide +kernel
  have hnamed : workTree.find (quotedPath workFrame.filename "b.c") = .ok ["w", "pkg", "b.c"] := by
    decide +kernel
  have hbody : Hands workTree workFrame.filename (Path.join (["pkg"].foldl Path.join ".") (moduleFile "m"))
      workSite "1" :=
    .contents (by decide +kernel) (by decide +kernel) (by decide +kernel)
      (leadsToNoArtifact_of_find hnamed (by decide +kernel)) (.inr (by decide +kernel))
  exact ⟨by decide +kernel, cleanup_keeps workTree_sound hroot (by decide) hmodule
    ((holdsSite_workTree (by decide +kernel)).2 rfl) hbody [] true⟩

/-! ### The order of removed files -/

/-- The order in which removed files are listed. -/
def inOrder (locations : List Location) : List Location :=
  locations.mergeSort fun l m => (List.compareLex compare l m).isLE

/-- Of two lists of names, one comes before the other. -/
def Before (l m : List String) : Prop := List.compareLex compare l m = .lt

theorem mem_inOrder {locations : List Location} {l : Location} : l ∈ inOrder locations ↔ l ∈ locations :=
  (List.mergeSort_perm _ _).mem_iff

theorem Before.asymm {l m : Location} (h : Before l m) : ¬ Before m l := by
  intro h'
  rw [Before, Std.OrientedCmp.gt_of_lt h] at h'
  cases h'

/-- What two lists begin with alike does not matter. -/
theorem before_append (front l m : List String) : Before (front ++ l) (front ++ m) ↔ Before l m := by
  induction front with
  | nil => rfl
  | cons name front ih =>
    have hsame : compare name name = .eq := Std.ReflCmp.compare_self
    rw [List.cons_append, List.cons_append, ← ih, Before, Before, List.compareLex_cons_cons, hsame]
    rfl

/-- Different locations are listed strictly one before the other. -/
theorem pairwise_inOrder {locations : List Location} (h : locations.Nodup) :
    (inOrder locations).Pairwise Before := by
  have hsorted : (inOrder locations).Pairwise fun l m => (List.compareLex compare l m).isLE = true := by
    refine List.pairwise_mergeSort (fun _ _ _ => Std.TransCmp.isLE_trans) (fun l m => ?_) locations
    have hswap : List.compareLex compare m l = (List.compareLex compare l m).swap :=
      Std.OrientedCmp.eq_swap
    rw [hswap]
    cases List.compareLex compare l m <;> rfl
  have hnodup : (inOrder locations).Pairwise (· ≠ ·) := (List.mergeSort_perm _ _).nodup_iff.2 h
  refine (hsorted.and hnodup).imp fun {l m} ⟨hle, hne⟩ => ?_
  have hcmp : List.compareLex compare l m ≠ .eq := fun heq => hne (Std.LawfulEqCmp.eq_of_compare heq)
  unfold Before
  cases hcompare : List.compareLex compare l m with
  | lt => rfl
  | eq => exact absurd hcompare hcmp
  | gt =>
    rw [hcompare] at hle
    cases hle

/-- Two listings of the same locations are the same. -/
theorem eq_of_pairwise_before {first second : List Location} (hfirst : first.Pairwise Before)
    (hsecond : second.Pairwise Before) (h : ∀ l, l ∈ first ↔ l ∈ second) : first = second := by
  have hne {l m : Location} (hbefore : Before l m) : l ≠ m := by
    rintro rfl
    exact hbefore.asymm hbefore
  have hperm : first.Perm second :=
    (List.perm_ext_iff_of_nodup (hfirst.imp hne) (hsecond.imp hne)).2 h
  exact hperm.eq_of_pairwise (fun l m _ _ hlm hml => absurd hml hlm.asymm) hfirst hsecond

/-! ### What is removed -/

/-- An artifact that a cleanup meets and that its module does not keep. -/
def Stale (t : FileTree α) (path : String) (root : Location) (recurse : Bool) (l : Location) : Prop :=
  ∃ n, Met t root recurse l n ∧ ¬ Live t (siblingModule path root l n) n.kind n.bodyHash

/-- A tree in which nothing keeps a cleanup of a directory from its work. -/
structure Cleanable (t : FileTree α) (path : String) (root : Location) (recurse : Bool) : Prop where
  sound : t.Sound
  start : sweepRoot t path = .ok root
  /-- Every artifact that is met can be removed. -/
  removable : ∀ l n, Met t root recurse l n → ∃ rest, t.remove (pathBelow path root l) = .ok rest
  /-- No site of a module names a file that is named like an artifact. -/
  plain : ∀ l n, Met t root recurse l n → NamesNoArtifact t (siblingModule path root l n)

/-- The artifacts that a cleanup removes. -/
def staleLocations (t : FileTree α) (path : String) (root : Location) (recurse : Bool) : List Location :=
  inOrder (((candidates t path root recurse).map Candidate.location).filter (isStale t path root))

/-- The stale artifacts are listed in order. -/
theorem pairwise_staleLocations (hsound : t.Sound) :
    (staleLocations t path root recurse).Pairwise Before :=
  pairwise_inOrder ((nodup_candidates hsound).filter _)

theorem mem_staleLocations (hsound : t.Sound) {l : Location} :
    l ∈ staleLocations t path root recurse ↔ Stale t path root recurse l := by
  rw [staleLocations, mem_inOrder, List.mem_filter, List.mem_map]
  constructor
  · rintro ⟨⟨c, hc, rfl⟩, hstale⟩
    cases hname : ArtifactName.parse? c.name with
    | none =>
      obtain ⟨holder, name, contents, -, -, rfl⟩ := (mem_candidates_iff hsound).1 hc
      rw [isStale_of_none (by simpa using hname)] at hstale
      cases hstale
    | some n =>
      obtain ⟨hmet, -⟩ := met_of_mem_candidates hsound hc hname
      exact ⟨n, hmet, (isStale_of_some hmet.named).1 hstale⟩
  · rintro ⟨n, hmet, hdead⟩
    obtain ⟨holder, name, rfl, hname⟩ := exists_concat_of_nameAt? hmet.named
    obtain ⟨contents, hfile⟩ := hmet.file
    have hwithin := hmet.within
    rw [List.dropLast_concat] at hwithin
    exact ⟨⟨_, (mem_candidates_iff hsound).2 ⟨holder, name, contents, hfile, hwithin, rfl⟩, rfl⟩,
      (isStale_of_some hmet.named).2 hdead⟩

/-- Paths of stale artifacts stand in the order of their components. -/
theorem pairwise_paths (hsound : t.Sound) :
    ((staleLocations t path root recurse).map (pathBelow path root)).Pairwise fun p q =>
      Before (Path.components p) (Path.components q) := by
  have hcomponents {l : Location} (hl : l ∈ staleLocations t path root recurse) : ∃ below,
      l = root ++ below ∧ Path.components (pathBelow path root l) = Path.components path ++ below := by
    obtain ⟨n, hmet, -⟩ := (mem_staleLocations hsound).1 hl
    obtain ⟨contents, hfile⟩ := hmet.file
    have hnames := hsound.names l (FileTree.mem_keys_of_file hfile)
    obtain ⟨below, rfl⟩ := hmet.prefix_dropLast.trans (List.dropLast_prefix l)
    refine ⟨below, rfl, ?_⟩
    rw [FileTree.pathBelow_append,
      FileTree.components_foldl path fun name hname => (hnames name (List.mem_append_right _ hname)).1]
  refine List.pairwise_map.2 ((pairwise_staleLocations hsound).imp_of_mem fun {l m} hl hm hbefore => ?_)
  obtain ⟨below, rfl, hl⟩ := hcomponents hl
  obtain ⟨below', rfl, hm⟩ := hcomponents hm
  rw [hl, hm, before_append]
  rwa [before_append] at hbefore

/-- Paths of locations are listed in the order of the locations. -/
theorem sortPaths_map (locations : List Location) (pathOf : Location → String) :
    sortPaths (locations.map fun l => (l, pathOf l)) = (inOrder locations).map pathOf := by
  have hpairs : (inOrder locations).map (fun l => (l, pathOf l)) =
      (locations.map fun l => (l, pathOf l)).mergeSort fun a b =>
        (List.compareLex compare a.1 b.1).isLE :=
    List.map_mergeSort fun _ _ _ _ => rfl
  rw [sortPaths, ← hpairs, List.map_map]
  rfl

namespace Cleanable

variable (h : Cleanable t path root recurse)
include h

theorem reaches : t.Reaches path root := by
  obtain ⟨hfind, hdirectory⟩ := sweepRoot_eq_ok_iff.1 h.start
  exact FileTree.reaches_of_find hfind hdirectory

theorem checkPath {l : Location} {n : ArtifactName} (hmet : Met t root recurse l n) :
    FileTree.checkPath (pathBelow path root l) = .ok () := by
  obtain ⟨rest, hrest⟩ := h.removable l n hmet
  obtain ⟨m, contents, hm, -⟩ := FileTree.remove_eq_ok_iff.1 hrest
  exact (FileTree.find_eq_ok_iff.1 hm).1

/-- The path of a module leads to no artifact. -/
theorem leads_sibling {l : Location} {n : ArtifactName} (hmet : Met t root recurse l n) :
    LeadsToNoArtifact t (siblingModule path root l n) := by
  obtain ⟨holder, name, rfl, hname⟩ := exists_concat_of_nameAt? hmet.named
  obtain ⟨artifact, hartifact⟩ := hmet.file
  have hkey := FileTree.mem_keys_of_file hartifact
  have hbelow : root <+: holder := by simpa using hmet.prefix_dropLast
  have hmodule : Path.IsName (moduleFile n.moduleName) :=
    ArtifactName.isName_module hname (h.sound.names _ hkey name (by simp)).1
  intro m contents hm _
  rw [siblingModule, List.dropLast_concat,
    FileTree.find_join_name (h.sound.reaches_pathBelow h.reaches hbelow hkey) hmodule] at hm
  rw [hm.2.2.1, nameAt?_concat, parse?_moduleFile]

theorem settled : Settled t path root recurse := by
  intro l n hmet gone hgone
  exact live_without h.sound hgone (h.leads_sibling hmet) (h.plain l n hmet)

/-- **A cleanup removes the stale artifacts** and tells their paths in order. -/
theorem cleanup_eq : cleanup t path recurse =
    { outcome := .ok ((staleLocations t path root recurse).map (pathBelow path root))
      files := t.without (staleLocations t path root recurse) } := by
  have hwithin : (sweepAll t path root recurse).2.Within t path root recurse :=
    Sweep.within_run h.sound h.reaches (fun _ hc => hc) Sweep.within_start
  obtain ⟨hended, hremoved⟩ : (sweepAll t path root recurse).1 = .ok () ∧
      (sweepAll t path root recurse).2.removed.map Prod.fst =
        (((candidates t path root recurse).map Candidate.location).filter
          (isStale t path root)).reverse ++ [] :=
    Sweep.run_settled h.sound h.reaches h.settled (fun _ _ => h.checkPath) (fun _ hc => hc)
      (nodup_candidates h.sound) (fun _ _ => List.not_mem_nil) Sweep.within_start
  rw [List.append_nil] at hremoved
  have hpaths : (sweepAll t path root recurse).2.removed =
      ((sweepAll t path root recurse).2.removed.map Prod.fst).map fun l => (l, pathBelow path root l) := by
    rw [List.map_map]
    refine (List.map_id _).symm.trans (List.map_congr_left fun p hp => ?_)
    exact Prod.ext rfl (hwithin.removed p hp).1
  have horder : inOrder ((sweepAll t path root recurse).2.removed.map Prod.fst) =
      staleLocations t path root recurse := by
    rw [hremoved]
    refine eq_of_pairwise_before (pairwise_inOrder ?_) (pairwise_staleLocations h.sound) fun l => ?_
    · exact (List.reverse_perm _).nodup_iff.2 ((nodup_candidates h.sound).filter _)
    · rw [mem_inOrder, List.mem_reverse, staleLocations, mem_inOrder]
  have hsame : t.without ((sweepAll t path root recurse).2.removed.map Prod.fst) =
      t.without (staleLocations t path root recurse) :=
    FileTree.without_congr fun l => by rw [← horder, mem_inOrder]
  rw [cleanup_of_sweepRoot h.start, hended, hwithin.files, hsame, hpaths, sortPaths_map, horder]
  rfl

/-- The same tree in another order. -/
theorem relists {listed : FileTree α} (hlisted : listed.Relists t) :
    Cleanable listed path root recurse where
  sound := hlisted.sound h.sound
  start := by
    have hstart := h.start
    rw [sweepRoot_eq_ok_iff] at hstart ⊢
    rwa [hlisted.find h.sound, hlisted.get? h.sound]
  removable l n hmet := by
    obtain ⟨rest, hrest⟩ := h.removable l n ((met_relists hlisted h.sound).1 hmet)
    obtain ⟨m, contents, hm, hfile, -⟩ := FileTree.remove_eq_ok_iff.1 hrest
    refine ⟨_, FileTree.remove_eq_ok_iff.2 ⟨m, contents, ?_, ?_, rfl⟩⟩
    · rwa [hlisted.find h.sound]
    · rwa [hlisted.get? h.sound]
  plain l n hmet := by
    rw [namesNoArtifact_relists hlisted h.sound]
    exact h.plain l n ((met_relists hlisted h.sound).1 hmet)

/-- The same tree without some artifacts. -/
theorem without {gone : List Location} (hgone : AllArtifacts t gone) :
    Cleanable (t.without gone) path root recurse where
  sound := h.sound.without hgone.allFiles
  start := by
    obtain ⟨hfind, hdirectory⟩ := sweepRoot_eq_ok_iff.1 h.start
    rw [sweepRoot_eq_ok_iff, FileTree.find_without h.sound hgone.allFiles,
      hgone.allFiles.directory_without]
    exact ⟨⟨hfind, hgone.allFiles.not_mem_of_directory hdirectory⟩, hdirectory⟩
  removable l n hmet := by
    obtain ⟨hmet, hkept⟩ := (met_without hgone).1 hmet
    obtain ⟨contents, hfile⟩ := hmet.file
    have hfind := (hmet.find h.sound h.reaches).2 ⟨h.checkPath hmet, rfl⟩
    exact ⟨_, (FileTree.remove_without h.sound hgone.allFiles).2 ⟨l, contents, hfind, hkept, hfile, rfl⟩⟩
  plain l n hmet := by
    obtain ⟨hmet, -⟩ := (met_without hgone).1 hmet
    exact (h.plain l n hmet).without h.sound hgone (h.leads_sibling hmet)

end Cleanable

theorem stale_relists {listed : FileTree α} (hlisted : listed.Relists t) (hsound : t.Sound) {l : Location} :
    Stale listed path root recurse l ↔ Stale t path root recurse l := by
  simp only [Stale, met_relists hlisted hsound, live_relists hlisted hsound]

theorem allArtifacts_staleLocations (hsound : t.Sound) :
    AllArtifacts t (staleLocations t path root recurse) := by
  intro l hl
  obtain ⟨n, hmet, -⟩ := (mem_staleLocations hsound).1 hl
  exact ⟨hmet.file, by simp [hmet.named]⟩

/-- Without its stale artifacts, a tree has none. -/
theorem Cleanable.not_stale_without (h : Cleanable t path root recurse) (l : Location) :
    ¬ Stale (t.without (staleLocations t path root recurse)) path root recurse l := by
  have hgone : AllArtifacts t (staleLocations t path root recurse) := allArtifacts_staleLocations h.sound
  rintro ⟨n, hmet, hdead⟩
  obtain ⟨hmet, hkept⟩ := (met_without hgone).1 hmet
  rw [h.settled l n hmet _ hgone] at hdead
  exact hkept ((mem_staleLocations h.sound).2 ⟨n, hmet, hdead⟩)

/-- **A cleanup removes the stale artifacts, in whichever order directories are listed.** It tells their paths
in order, leaves all else, and after it nothing is stale. -/
theorem cleanup_exact (h : Cleanable t path root recurse) :
    ∃ gone : List Location, (∀ l, l ∈ gone ↔ Stale t path root recurse l) ∧
      ((gone.map (pathBelow path root)).Pairwise fun p q =>
        Before (Path.components p) (Path.components q)) ∧
      ∀ listed : FileTree α, listed.Relists t →
        cleanup listed path recurse =
          { outcome := .ok (gone.map (pathBelow path root)), files := listed.without gone } ∧
        (∀ l, (listed.without gone).get? l = if l ∈ gone then none else t.get? l) ∧
        ∀ again : FileTree α, again.Relists (listed.without gone) →
          cleanup again path recurse = { outcome := .ok [], files := again } := by
  refine ⟨staleLocations t path root recurse, fun l => mem_staleLocations h.sound,
    pairwise_paths h.sound, fun listed hlisted => ?_⟩
  have hlistedCleanable := h.relists hlisted
  have hsame : staleLocations listed path root recurse = staleLocations t path root recurse := by
    refine eq_of_pairwise_before (pairwise_staleLocations hlistedCleanable.sound)
      (pairwise_staleLocations h.sound) fun l => ?_
    rw [mem_staleLocations hlistedCleanable.sound, mem_staleLocations h.sound,
      stale_relists hlisted h.sound]
  have hgone : AllArtifacts listed (staleLocations t path root recurse) :=
    hsame ▸ allArtifacts_staleLocations hlistedCleanable.sound
  refine ⟨by rw [hlistedCleanable.cleanup_eq, hsame], fun l => ?_, fun again hagain => ?_⟩
  · rw [hgone.allFiles.get?_without, hlisted.get? h.sound]
  · have hleft := hlistedCleanable.without hgone
    have hnone : staleLocations again path root recurse = [] := by
      refine List.eq_nil_iff_forall_not_mem.2 fun l hl => ?_
      rw [mem_staleLocations (hagain.sound hleft.sound), stale_relists hagain hleft.sound, ← hsame] at hl
      exact hlistedCleanable.not_stale_without l hl
    rw [(hleft.relists hagain).cleanup_eq, hnone, FileTree.without_nil]
    rfl

/-- Nothing keeps a cleanup of `workTree` from its work. -/
theorem workTree_cleanable : Cleanable workTree "." ["w"] true := by
  have hstart : sweepRoot workTree "." = .ok ["w"] := by decide +kernel
  obtain ⟨hfind, hdirectory⟩ := sweepRoot_eq_ok_iff.1 hstart
  have hnames : ∀ l ∈ workTree.entries.keys, (nameAt? l).all (fun n =>
      siblingModule "." ["w"] l n == "./pkg/m.py" &&
        decide (FileTree.checkPath (pathBelow "." ["w"] l) = .ok ())) = true := by decide +kernel
  have hmet {l : Location} {n : ArtifactName} (h : Met workTree ["w"] true l n) :
      siblingModule "." ["w"] l n = "./pkg/m.py" ∧
        FileTree.checkPath (pathBelow "." ["w"] l) = .ok () := by
    obtain ⟨contents, hfile⟩ := h.file
    have hall := hnames l (FileTree.mem_keys_of_file hfile)
    rw [h.named] at hall
    simpa using hall
  refine ⟨workTree_sound, hstart, fun l n h => ?_, fun l n h s hs name hname => ?_⟩
  · obtain ⟨contents, hfile⟩ := h.file
    have hreaches := FileTree.reaches_of_find hfind hdirectory
    exact ⟨_, FileTree.remove_eq_ok_iff.2
      ⟨l, contents, (h.find workTree_sound hreaches).2 ⟨(hmet h).2, rfl⟩, hfile, rfl⟩⟩
  · rw [(hmet h).1] at hs ⊢
    obtain rfl := (holdsSite_workTree (by decide +kernel)).1 hs
    obtain rfl : "b.c" = name := Option.some.inj ((by decide +kernel : _ = some "b.c").symm.trans hname)
    have hnamed : workTree.find (quotedPath "./pkg/m.py" "b.c") = .ok ["w", "pkg", "b.c"] := by
      decide +kernel
    exact leadsToNoArtifact_of_find hnamed (by decide +kernel)

/-- However directories are listed, the artifact of the other kind is removed. -/
theorem workTree_cleaned : Cleanable workTree "." ["w"] true ∧
    ∀ listed : FileTree (List UInt8), listed.Relists workTree →
      (cleanup listed "." true).outcome = .ok ["./pkg/_qq_stmt" ++ workTail] := by
  obtain ⟨gone, -, -, hall⟩ := cleanup_exact workTree_cleanable
  have hpaths : (cleanup workTree "." true).outcome = .ok ["./pkg/_qq_stmt" ++ workTail] := by
    decide +kernel
  rw [(hall workTree (.refl workTree)).1] at hpaths
  refine ⟨workTree_cleanable, fun listed hlisted => ?_⟩
  rw [(hall listed hlisted).1]
  exact hpaths

end Quasiquote.Native
