import Quasiquote.Proofs.Native.Liveness

/-!
# What a sweep does

A sweep looks at one file after another. Modules are read while artifacts disappear, and each only once, so
all that is known of a sweep at first is that what it removed was not kept in the tree without some artifacts.

## Main Definitions

* `Native.Met` — an artifact that a sweep meets
* `Native.siblingModule` — the path of the module that an artifact belongs to
* `Native.Discarded` — an artifact that its module did not keep when a sweep looked
* `Native.Sweep.Within` — a sweep under way in a tree
* `Native.Settled` — modules keep the same artifacts, whichever artifacts are gone

## Main Statements

* `Native.mem_candidates_iff` — the files that a sweep meets
* `Native.Sweep.visit_cases` — what looking at one file can do
* `Native.Sweep.within_run` — a sweep removes nothing but what is discarded
* `Native.Sweep.run_settled` — a sweep removes what is stale, where modules keep the same all the time
-/

namespace Quasiquote.Native

open FileTree (pathBelow)

/-! ### What is met -/

section Met

variable {α : Type} {t : FileTree α} {path : String} {root l : Location} {recurse : Bool} {n : ArtifactName}

/-- A sweep of a directory meets an artifact with a name. -/
structure Met (t : FileTree α) (root : Location) (recurse : Bool) (l : Location) (n : ArtifactName) :
    Prop where
  file : ∃ contents, t.get? l = some (.file contents)
  /-- It stands in the directory, or in one below it if those are swept as well. -/
  within : l.dropLast = root ∨ recurse = true ∧ root <+: l.dropLast
  named : nameAt? l = some n

/-- The path of the module beside an artifact to which it belongs. -/
def siblingModule (path : String) (root l : Location) (n : ArtifactName) : String :=
  Path.join (pathBelow path root l.dropLast) (moduleFile n.moduleName)

theorem Met.prefix_dropLast (h : Met t root recurse l n) : root <+: l.dropLast := by
  rcases h.within with heq | ⟨-, hbelow⟩
  · exact heq ▸ List.prefix_rfl
  · exact hbelow

/-- An artifact stands in a directory under its name. -/
theorem exists_concat_of_nameAt? (h : nameAt? l = some n) :
    ∃ holder name, l = holder ++ [name] ∧ ArtifactName.parse? name = some n := by
  obtain ⟨name, hlast, hname⟩ := Option.bind_eq_some_iff.1 h
  obtain ⟨holder, rfl⟩ := List.getLast?_eq_some_iff.1 hlast
  exact ⟨holder, name, rfl, hname⟩

/-- An entry is met if it is a file in the directory, or below it if wanted. -/
theorem candidate?_eq_some_iff {p : Location × Node α} {c : Candidate} :
    candidate? path root recurse p = some c ↔ ∃ holder name contents,
      p = (holder ++ [name], .file contents) ∧ (holder = root ∨ recurse = true ∧ root <+: holder) ∧
      c = { location := holder ++ [name], directory := pathBelow path root holder, name } := by
  constructor
  · intro h
    unfold candidate? at h
    split at h
    · next contents name hnode hlast =>
      obtain ⟨l, node⟩ := p
      obtain ⟨holder, rfl⟩ := List.getLast?_eq_some_iff.1 hlast
      cases hnode
      simp only [List.dropLast_concat, List.isPrefixOf_iff_prefix] at h
      split at h
      · next hwithin => exact ⟨holder, name, contents, rfl, hwithin, (Option.some.inj h).symm⟩
      · cases h
    · cases h
  · rintro ⟨holder, name, contents, rfl, hwithin, rfl⟩
    simp only [candidate?, List.getLast?_concat, List.dropLast_concat, List.isPrefixOf_iff_prefix]
    rw [if_pos hwithin]
    rfl

/-- **The files that a sweep meets** are those in the directory, and below it if wanted. -/
theorem mem_candidates_iff (hsound : t.Sound) {c : Candidate} :
    c ∈ candidates t path root recurse ↔ ∃ holder name contents,
      t.get? (holder ++ [name]) = some (.file contents) ∧
      (holder = root ∨ recurse = true ∧ root <+: holder) ∧
      c = { location := holder ++ [name], directory := pathBelow path root holder, name } := by
  rw [candidates, List.mem_filterMap]
  constructor
  · rintro ⟨p, hmem, hc⟩
    obtain ⟨holder, name, contents, rfl, hwithin, rfl⟩ := candidate?_eq_some_iff.1 hc
    have hnotAbove := hsound.notAbove _ (List.mem_map_of_mem hmem)
    exact ⟨holder, name, contents, (hsound.get?_eq_some_iff hnotAbove).2 hmem, hwithin, rfl⟩
  · rintro ⟨holder, name, contents, hfile, hwithin, rfl⟩
    have hnotAbove := hsound.notAbove _ (FileTree.mem_keys_of_file hfile)
    exact ⟨_, (hsound.get?_eq_some_iff hnotAbove).1 hfile,
      candidate?_eq_some_iff.2 ⟨holder, name, contents, rfl, hwithin, rfl⟩⟩

/-- No file is met twice. -/
theorem nodup_candidates (hsound : t.Sound) :
    ((candidates t path root recurse).map Candidate.location).Nodup := by
  have hlocation {p : Location × Node α} {c : Candidate} (h : candidate? path root recurse p = some c) :
      c.location = p.1 := by
    obtain ⟨holder, name, contents, rfl, -, rfl⟩ := candidate?_eq_some_iff.1 h
    rfl
  have hkeys : t.entries.Pairwise fun p q => p.1 ≠ q.1 := List.pairwise_map.1 hsound.nodup
  refine List.pairwise_map.2 (List.pairwise_filterMap.2 (hkeys.imp fun hne c hc c' hc' => ?_))
  rw [hlocation hc, hlocation hc']
  exact hne

/-- A file with an artifact's name that a sweep looks at is met. -/
theorem met_of_mem_candidates (hsound : t.Sound) {c : Candidate}
    (hc : c ∈ candidates t path root recurse) (hname : ArtifactName.parse? c.name = some n) :
    Met t root recurse c.location n ∧ c.path = pathBelow path root c.location ∧
      c.modulePath n = siblingModule path root c.location n := by
  obtain ⟨holder, name, contents, hfile, hwithin, rfl⟩ := (mem_candidates_iff hsound).1 hc
  have hbelow : root <+: holder := by
    rcases hwithin with rfl | ⟨-, hbelow⟩
    · exact List.prefix_rfl
    · exact hbelow
  refine ⟨⟨⟨contents, hfile⟩, by rwa [List.dropLast_concat], ?_⟩, ?_, ?_⟩
  · rwa [nameAt?_concat]
  · rw [FileTree.pathBelow_concat hbelow]
    rfl
  · rw [siblingModule, List.dropLast_concat]
    rfl

theorem met_without {gone : List Location} (hgone : AllArtifacts t gone) :
    Met (t.without gone) root recurse l n ↔ Met t root recurse l n ∧ l ∉ gone := by
  have hget := hgone.allFiles.get?_without l
  constructor
  · rintro ⟨⟨contents, hfile⟩, hwithin, hnamed⟩
    rw [hget] at hfile
    split at hfile
    · cases hfile
    · next hkept => exact ⟨⟨⟨contents, hfile⟩, hwithin, hnamed⟩, hkept⟩
  · rintro ⟨⟨⟨contents, hfile⟩, hwithin, hnamed⟩, hkept⟩
    exact ⟨⟨contents, by rw [hget, if_neg hkept, hfile]⟩, hwithin, hnamed⟩

theorem met_relists {listed : FileTree α} (hlisted : listed.Relists t) (hsound : t.Sound) :
    Met listed root recurse l n ↔ Met t root recurse l n := by
  have hget := hlisted.get? hsound l
  exact ⟨fun h => ⟨hget ▸ h.file, h.within, h.named⟩, fun h => ⟨hget ▸ h.file, h.within, h.named⟩⟩

/-- The path of an artifact that is met leads to it, unless it is too long. -/
theorem Met.find (hsound : t.Sound) (hroot : t.Reaches path root) (h : Met t root recurse l n)
    {m : Location} : t.find (pathBelow path root l) = .ok m ↔
      FileTree.checkPath (pathBelow path root l) = .ok () ∧ m = l := by
  obtain ⟨holder, name, rfl, -⟩ := exists_concat_of_nameAt? h.named
  obtain ⟨contents, hfile⟩ := h.file
  have hbelow : root <+: holder := by simpa using h.prefix_dropLast
  exact hsound.find_pathBelow hroot hbelow hfile (FileTree.mem_keys_of_file hfile)

end Met

/-! ### One file -/

variable {α : Type} [TextContents α] {t : FileTree α} {path : String} {root : Location} {recurse : Bool}

/-- An artifact that a sweep met and whose module did not keep it, without some artifacts. The path of the
artifact is one that the file system can be asked about. -/
def Discarded (t : FileTree α) (path : String) (root : Location) (recurse : Bool) (l : Location) : Prop :=
  ∃ n gone, Met t root recurse l n ∧ AllArtifacts t gone ∧
    ¬ Live (t.without gone) (siblingModule path root l n) n.kind n.bodyHash ∧
    FileTree.checkPath (pathBelow path root l) = .ok ()

namespace Sweep

/-- A sweep under way in a tree. -/
structure Within (t : FileTree α) (path : String) (root : Location) (recurse : Bool) (s : Sweep α) :
    Prop where
  files : s.files = t.without (s.removed.map Prod.fst)
  removed : ∀ p ∈ s.removed, p.2 = pathBelow path root p.1 ∧ Discarded t path root recurse p.1
  /-- What it knows of a module is what that kept without some artifacts. -/
  modules : ∀ modulePath sites, s.modules.get? modulePath = some sites →
    ∃ gone, AllArtifacts t gone ∧ sites = liveSites (t.without gone) modulePath

variable {s s' : Sweep α} {c : Candidate}

/-- A sweep that has not begun. -/
theorem within_start : Within t path root recurse { files := t, modules := [], removed := [] } where
  files := by simp
  removed := fun _ h => nomatch h
  modules := fun _ _ h => nomatch h

/-- What was removed were artifacts. -/
theorem Within.allArtifacts (h : s.Within t path root recurse) :
    AllArtifacts t (s.removed.map Prod.fst) := by
  intro l hl
  obtain ⟨p, hp, rfl⟩ := List.mem_map.1 hl
  obtain ⟨-, n, -, hmet, -⟩ := h.removed p hp
  exact ⟨hmet.file, by simp [hmet.named]⟩

/-- Asking for the live sites of a module changes nothing but what is known. -/
theorem Within.live (h : s.Within t path root recurse) (modulePath : String) :
    ∃ gone, AllArtifacts t gone ∧ (s.live modulePath).1 = liveSites (t.without gone) modulePath ∧
      (s.live modulePath).2.Within t path root recurse ∧ (s.live modulePath).2.files = s.files ∧
      (s.live modulePath).2.removed = s.removed := by
  unfold Sweep.live
  split
  · next sites hknown =>
    obtain ⟨gone, hgone, hsites⟩ := h.modules modulePath sites hknown
    exact ⟨gone, hgone, hsites, h, rfl, rfl⟩
  · next hunknown =>
    refine ⟨_, h.allArtifacts, by rw [h.files], ⟨h.files, h.removed, ?_⟩, rfl, rfl⟩
    intro m sites hm
    rw [Table.get?_insert] at hm
    split at hm
    · next heq =>
      cases hm
      exact ⟨_, h.allArtifacts, by rw [heq, h.files]⟩
    · exact h.modules m sites hm

/-- Looking at a file that has no artifact's name. -/
theorem visit_of_none (hname : ArtifactName.parse? c.name = none) : s.visit c = .ok s := by
  rw [visit, hname]

/-- Looking at a file with an artifact's name. -/
theorem visit_of_some {n : ArtifactName} (hname : ArtifactName.parse? c.name = some n) :
    s.visit c =
      if (n.kind, n.bodyHash) ∈ (s.live (c.modulePath n)).1 then .ok (s.live (c.modulePath n)).2
      else
        match (s.live (c.modulePath n)).2.files.remove c.path with
        | .error e => .error (.io c.path e)
        | .ok files => .ok {
            files
            modules := (s.live (c.modulePath n)).2.modules
            removed := (c.location, c.path) :: (s.live (c.modulePath n)).2.removed } := by
  unfold visit
  split
  · next hnone =>
    rw [hname] at hnone
    cases hnone
  · next n' hsome =>
    obtain rfl : n = n' := Option.some.inj (hname.symm.trans hsome)
    rfl

/-- An artifact is removed exactly if its path is not too long and it is still there. -/
theorem Within.remove_iff (hsound : t.Sound) (hroot : t.Reaches path root)
    (h : s.Within t path root recurse) {l : Location} {n : ArtifactName} (hmet : Met t root recurse l n)
    {files : FileTree α} :
    s.files.remove (pathBelow path root l) = .ok files ↔
      FileTree.checkPath (pathBelow path root l) = .ok () ∧ l ∉ s.removed.map Prod.fst ∧
        files = t.without (l :: s.removed.map Prod.fst) := by
  obtain ⟨contents, hfile⟩ := hmet.file
  rw [h.files, FileTree.remove_without hsound h.allArtifacts.allFiles]
  constructor
  · rintro ⟨l, _, hl, hkept, -, rfl⟩
    obtain ⟨hcheck, rfl⟩ := (hmet.find hsound hroot).1 hl
    exact ⟨hcheck, hkept, rfl⟩
  · rintro ⟨hcheck, hkept, rfl⟩
    exact ⟨_, contents, (hmet.find hsound hroot).2 ⟨hcheck, rfl⟩, hkept, hfile, rfl⟩

/-- **What looking at one file can do.** A file without an artifact's name stays, and so does an artifact
that its module keeps. Any other artifact is removed, unless its path is too long. -/
theorem Within.visit_cases (hsound : t.Sound) (hroot : t.Reaches path root)
    (h : s.Within t path root recurse) (hc : c ∈ candidates t path root recurse) :
    (nameAt? c.location = none ∧ s.visit c = .ok s) ∨
    ∃ n gone, Met t root recurse c.location n ∧ AllArtifacts t gone ∧
      ((Live (t.without gone) (siblingModule path root c.location n) n.kind n.bodyHash ∧
          ∃ s', s.visit c = .ok s' ∧ s'.Within t path root recurse ∧ s'.removed = s.removed) ∨
        (¬ Live (t.without gone) (siblingModule path root c.location n) n.kind n.bodyHash ∧
          ((∃ e, s.visit c = .error (.io c.path e) ∧
              ¬ (FileTree.checkPath (pathBelow path root c.location) = .ok () ∧
                c.location ∉ s.removed.map Prod.fst)) ∨
            ∃ s', s.visit c = .ok s' ∧ s'.Within t path root recurse ∧
              s'.removed = (c.location, c.path) :: s.removed))) := by
  cases hname : ArtifactName.parse? c.name with
  | none =>
    obtain ⟨holder, name, contents, -, -, rfl⟩ := (mem_candidates_iff hsound).1 hc
    exact .inl ⟨by simpa using hname, visit_of_none hname⟩
  | some n =>
    obtain ⟨hmet, hpath, hmodule⟩ := met_of_mem_candidates hsound hc hname
    obtain ⟨gone, hgone, hsites, hwithin, hfiles, hremoved⟩ := h.live (c.modulePath n)
    refine .inr ⟨n, gone, hmet, hgone, ?_⟩
    rw [← hmodule, ← mem_liveSites_iff, ← hsites, visit_of_some hname]
    by_cases hlive : (n.kind, n.bodyHash) ∈ (s.live (c.modulePath n)).1
    · exact .inl ⟨hlive, _, if_pos hlive, hwithin, hremoved⟩
    refine .inr ⟨hlive, ?_⟩
    rw [if_neg hlive]
    have hremove {files : FileTree α} : (s.live (c.modulePath n)).2.files.remove c.path = .ok files ↔
        FileTree.checkPath (pathBelow path root c.location) = .ok () ∧ c.location ∉ s.removed.map Prod.fst ∧
          files = t.without (c.location :: s.removed.map Prod.fst) := by
      rw [hfiles, hpath]
      exact h.remove_iff hsound hroot hmet
    cases hresult : (s.live (c.modulePath n)).2.files.remove c.path with
    | error e =>
      refine .inl ⟨e, rfl, fun ⟨hcheck, hkept⟩ => ?_⟩
      rw [hremove.2 ⟨hcheck, hkept, rfl⟩] at hresult
      cases hresult
    | ok files =>
      obtain ⟨hcheck, hkept, rfl⟩ := hremove.1 hresult
      refine .inr ⟨_, rfl, ⟨by simp [hremoved], ?_, hwithin.modules⟩, by rw [hremoved]⟩
      intro p hp
      rcases List.mem_cons.1 hp with rfl | hp
      · refine ⟨hpath, n, gone, hmet, hgone, ?_, hcheck⟩
        rw [← hmodule, ← mem_liveSites_iff, ← hsites]
        exact hlive
      · exact hwithin.removed p hp

/-! ### Runs -/

theorem run_of_ok {rest : List Candidate} (h : s.visit c = .ok s') : s.run (c :: rest) = s'.run rest := by
  rw [run, h]

theorem run_of_error {rest : List Candidate} {e : CacheError} (h : s.visit c = .error e) :
    s.run (c :: rest) = (.error e, s) := by
  rw [run, h]

/-- **A sweep removes nothing but what is discarded,** whether it fails or not. -/
theorem within_run (hsound : t.Sound) (hroot : t.Reaches path root) {met : List Candidate}
    (hmet : ∀ c ∈ met, c ∈ candidates t path root recurse) (h : s.Within t path root recurse) :
    (s.run met).2.Within t path root recurse := by
  induction met generalizing s with
  | nil => exact h
  | cons c rest ih =>
    have hrest := fun c hc => hmet c (List.mem_cons_of_mem _ hc)
    rcases h.visit_cases hsound hroot (hmet c List.mem_cons_self) with
      ⟨-, hvisit⟩ | ⟨n, gone, -, -, ⟨-, s', hvisit, hwithin, -⟩ | ⟨-, ⟨e, hvisit, -⟩ | ⟨s', hvisit, hwithin, -⟩⟩⟩
    · rw [run_of_ok hvisit]
      exact ih hrest h
    · rw [run_of_ok hvisit]
      exact ih hrest hwithin
    · rw [run_of_error hvisit]
      exact h
    · rw [run_of_ok hvisit]
      exact ih hrest hwithin

end Sweep

/-! ### What is stale -/

/-- Whether what there is at a location is an artifact that its module does not keep. -/
def isStale (t : FileTree α) (path : String) (root l : Location) : Bool :=
  (nameAt? l).any fun n => !(liveSites t (siblingModule path root l n)).contains (n.kind, n.bodyHash)

theorem isStale_of_none {l : Location} (h : nameAt? l = none) : isStale t path root l = false := by
  rw [isStale, h, Option.any_none]

theorem isStale_of_some {l : Location} {n : ArtifactName} (h : nameAt? l = some n) :
    isStale t path root l = true ↔ ¬ Live t (siblingModule path root l n) n.kind n.bodyHash := by
  rw [isStale, h, Option.any_some, Bool.not_eq_true', List.contains_eq_mem, decide_eq_false_iff_not,
    mem_liveSites_iff]

/-- Modules keep the same artifacts, whichever artifacts are gone. -/
def Settled (t : FileTree α) (path : String) (root : Location) (recurse : Bool) : Prop :=
  ∀ l n, Met t root recurse l n → ∀ gone, AllArtifacts t gone →
    (Live (t.without gone) (siblingModule path root l n) n.kind n.bodyHash ↔
      Live t (siblingModule path root l n) n.kind n.bodyHash)

/-- **A sweep removes what is stale,** one after another, where modules keep the same all the time and no
path is too long. -/
theorem Sweep.run_settled (hsound : t.Sound) (hroot : t.Reaches path root)
    (hsettled : Settled t path root recurse)
    (hreach : ∀ l n, Met t root recurse l n → FileTree.checkPath (pathBelow path root l) = .ok ())
    {met : List Candidate} (hmet : ∀ c ∈ met, c ∈ candidates t path root recurse)
    (hnodup : (met.map Candidate.location).Nodup) {s : Sweep α}
    (hfresh : ∀ c ∈ met, c.location ∉ s.removed.map Prod.fst) (h : s.Within t path root recurse) :
    (s.run met).1 = .ok () ∧ (s.run met).2.removed.map Prod.fst =
      ((met.map Candidate.location).filter (isStale t path root)).reverse ++ s.removed.map Prod.fst := by
  induction met generalizing s with
  | nil => exact ⟨rfl, rfl⟩
  | cons c rest ih =>
    rw [List.map_cons, List.nodup_cons] at hnodup
    have hrest := fun c hc => hmet c (List.mem_cons_of_mem _ hc)
    have hkept := fun c hc => hfresh c (List.mem_cons_of_mem _ hc)
    rw [List.map_cons, List.filter_cons]
    rcases h.visit_cases hsound hroot (hmet c List.mem_cons_self) with
      ⟨hnone, hvisit⟩ | ⟨n, gone, hc, hgone, ⟨hlive, s', hvisit, hwithin, hremoved⟩ | ⟨hdead, hcases⟩⟩
    · rw [run_of_ok hvisit, isStale_of_none hnone, if_neg Bool.false_ne_true]
      exact ih hrest hnodup.2 hkept h
    · have hnotStale : ¬ isStale t path root c.location = true := by
        rw [isStale_of_some hc.named, not_not, ← hsettled _ _ hc gone hgone]
        exact hlive
      rw [run_of_ok hvisit, if_neg hnotStale, ← hremoved]
      exact ih hrest hnodup.2 (by rwa [hremoved]) hwithin
    · have hstale : isStale t path root c.location = true := by
        rw [isStale_of_some hc.named, ← hsettled _ _ hc gone hgone]
        exact hdead
      rcases hcases with ⟨e, -, hunreachable⟩ | ⟨s', hvisit, hwithin, hremoved⟩
      · exact absurd ⟨hreach _ _ hc, hfresh c List.mem_cons_self⟩ hunreachable
      · have hfresh' : ∀ c' ∈ rest, c'.location ∉ s'.removed.map Prod.fst := by
          intro c' hc' hmem
          rw [hremoved, List.map_cons, List.mem_cons] at hmem
          rcases hmem with hsame | hmem
          · exact hnodup.1 (List.mem_map.2 ⟨c', hc', hsame⟩)
          · exact hkept c' hc' hmem
        obtain ⟨hended, hall⟩ := ih hrest hnodup.2 hfresh' hwithin
        rw [run_of_ok hvisit, if_pos hstale, List.reverse_cons, List.append_assoc]
        refine ⟨hended, hall.trans ?_⟩
        rw [hremoved]
        rfl

end Quasiquote.Native
