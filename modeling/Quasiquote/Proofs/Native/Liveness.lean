import Quasiquote.Native.Sweep
import Quasiquote.Proofs.Files.Tree
import Quasiquote.Proofs.Native.ArtifactName
import Quasiquote.Proofs.Quoter.FromFile

/-!
# What keeps an artifact

An artifact is kept by a site of its module with its body, or with the name of a file that holds it. Which
sites and files those are does not change while artifacts are removed, as modules are no artifacts.

## Main Definitions

* `Native.HoldsSite` — a module that opts in and holds a site
* `Native.Live` — a module that keeps the artifacts of some kind and body
* `Native.AllArtifacts` — locations at which there are files that are named like artifacts
* `Native.NamesNoArtifact` — a module whose sites name no file that is named like an artifact
* `Native.Hands` — what a site hands to a native quoter

## Main Statements

* `Native.mem_liveSites_iff` — the live sites of a module are what it keeps
* `Native.live_without` — a module that names no artifacts keeps the same without some of them
* `Native.Hands.live_without` — a module keeps what its sites hand on, whichever artifacts are gone
-/

namespace Quasiquote.Native

/-! ### Artifacts -/

/-- The name of an artifact that the file at a location has. -/
def nameAt? (l : Location) : Option ArtifactName := l.getLast?.bind ArtifactName.parse?

@[simp] theorem nameAt?_concat (l : Location) (name : String) :
    nameAt? (l ++ [name]) = ArtifactName.parse? name := by
  simp [nameAt?]

/-- The file of a module. -/
def moduleFile (moduleName : String) : String := moduleName ++ "." ++ moduleExtension

/-- Modules are no artifacts. -/
theorem parse?_moduleFile (moduleName : String) :
    ArtifactName.parse? (moduleFile moduleName) = none := by
  by_contra hsome
  obtain ⟨n, hn⟩ := Option.ne_none_iff_exists'.1 hsome
  obtain ⟨-, -, extension, hextension, hfile⟩ := ArtifactName.exists_stem_of_parse? hn
  have hmodule : (moduleFile moduleName).toList =
      moduleName.toList ++ '.' :: moduleExtension.toList := by simp [moduleFile]
  have hlast := splitAtLast?_append moduleName.toList (by decide : '.' ∉ moduleExtension.toList)
  rw [← hmodule, hfile, ArtifactName.toList_file,
    splitAtLast?_append _ (ArtifactName.dot_notMem_extension _ hextension)] at hlast
  have hsame : extension = moduleExtension :=
    String.toList_inj.1 (Prod.mk.inj (Option.some.inj hlast)).2
  rw [hsame] at hextension
  exact absurd hextension (by decide)

section Artifacts

variable {α : Type} {t : FileTree α} {gone : List Location} {filename modulePath name : String}
  {l m : Location}

/-- There are files at these locations, all of them named like artifacts. -/
def AllArtifacts (t : FileTree α) (gone : List Location) : Prop :=
  ∀ l ∈ gone, (∃ contents, t.get? l = some (.file contents)) ∧ (nameAt? l).isSome = true

theorem allArtifacts_nil : AllArtifacts t [] := fun _ h => nomatch h

theorem AllArtifacts.allFiles (h : AllArtifacts t gone) : t.AllFiles gone := fun l hl => (h l hl).1

/-- A path does not lead to a file that is named like an artifact. -/
def LeadsToNoArtifact (t : FileTree α) (path : String) : Prop :=
  ∀ l contents, t.find path = .ok l → t.get? l = some (.file contents) → nameAt? l = none

theorem leadsToNoArtifact_of_find {path : String} (hfind : t.find path = .ok l) (hl : nameAt? l = none) :
    LeadsToNoArtifact t path := by
  intro m contents hm _
  rw [hfind] at hm
  exact Except.ok.inj hm ▸ hl

theorem LeadsToNoArtifact.not_mem {path : String} (h : LeadsToNoArtifact t path)
    (hgone : AllArtifacts t gone) (hl : t.find path = .ok l) : l ∉ gone := by
  intro hmem
  obtain ⟨⟨contents, hfile⟩, hsome⟩ := hgone l hmem
  rw [h l contents hl hfile] at hsome
  cases hsome

theorem LeadsToNoArtifact.without (hsound : t.Sound) (hgone : AllArtifacts t gone) {path : String}
    (h : LeadsToNoArtifact t path) : LeadsToNoArtifact (t.without gone) path := by
  intro l contents hl hfile
  obtain ⟨hl, hkept⟩ := (FileTree.find_without hsound hgone.allFiles).1 hl
  rw [hgone.allFiles.get?_without, if_neg hkept] at hfile
  exact h l contents hl hfile

theorem leadsToNoArtifact_relists {listed : FileTree α} (hlisted : listed.Relists t)
    (hsound : t.Sound) {path : String} :
    LeadsToNoArtifact listed path ↔ LeadsToNoArtifact t path := by
  simp only [LeadsToNoArtifact, hlisted.find hsound, hlisted.get? hsound]

/-! ### Names in modules -/

/-- A name means the same file in a module, by whichever path the module is known. -/
theorem find_quotedPath (hsound : t.Sound) {contents : α} (hfile : t.get? l = some (.file contents))
    (hfilename : t.find filename = .ok l) (hmodulePath : t.find modulePath = .ok l)
    (hreach : filename = modulePath ∨ FileTree.checkPath (quotedPath modulePath name) = .ok ())
    (hm : t.find (quotedPath filename name) = .ok m) : t.find (quotedPath modulePath name) = .ok m := by
  rcases hreach with rfl | hreach
  · exact hm
  obtain ⟨holder, _, _, hl, -, -, hholder⟩ := hsound.reaches_parent hfilename hfile
  obtain ⟨holder', _, _, hl', -, -, hholder'⟩ := hsound.reaches_parent hmodulePath hfile
  obtain ⟨rfl, -⟩ := List.append_inj' (hl.symm.trans hl') rfl
  cases habsolute : Path.isAbsolute name with
  | true =>
    rw [quotedPath, Path.join, if_pos habsolute] at hm ⊢
    exact hm
  | false =>
    rw [quotedPath, FileTree.find_join hholder habsolute] at hm
    rw [quotedPath] at hreach ⊢
    exact (FileTree.find_join hholder' habsolute).2 ⟨hreach, hm.2⟩

end Artifacts

variable {α : Type} [TextContents α] {t : FileTree α} {modulePath : String} {s : Site}

/-! ### Modules -/

/-- A module opts in and holds a site. -/
def HoldsSite (t : FileTree α) (modulePath : String) (s : Site) : Prop :=
  ∃ source sites, t.readText modulePath = .ok source ∧ Pragma.isEnabled source = true ∧
    findSites source = .ok sites ∧ s ∈ sites

/-- A module keeps the artifacts of some kind for the body with a hash. -/
def Live (t : FileTree α) (modulePath : String) (kind : Site.Kind) (hash : String) : Prop :=
  ∃ s, HoldsSite t modulePath s ∧ s.kind = kind ∧
    (hash = bodyHash s.body ∨
      ∃ contents, quotedContents t modulePath s.body = some contents ∧ hash = bodyHash contents)

theorem mem_liveSitesOf_iff {kind : Site.Kind} {hash : String} :
    (kind, hash) ∈ liveSitesOf t modulePath s ↔ s.kind = kind ∧ (hash = bodyHash s.body ∨
      ∃ contents, quotedContents t modulePath s.body = some contents ∧ hash = bodyHash contents) := by
  unfold liveSitesOf
  split
  · next contents hcontents =>
    simp only [List.mem_cons, Prod.mk.injEq, List.not_mem_nil, or_false, hcontents, Option.some.injEq,
      exists_eq_left']
    rw [← and_or_left, eq_comm, or_comm]
  · next hnone => simp [hnone, eq_comm]

/-- **The live sites of a module are what it keeps.** -/
theorem mem_liveSites_iff {kind : Site.Kind} {hash : String} :
    (kind, hash) ∈ liveSites t modulePath ↔ Live t modulePath kind hash := by
  unfold liveSites Live HoldsSite
  cases hsource : t.readText modulePath with
  | error e => simp
  | ok source =>
    by_cases henabled : Pragma.isEnabled source = true
    · cases hsites : findSites source with
      | error e => simp [henabled, hsites]
      | ok sites => simp [henabled, hsites, mem_liveSitesOf_iff]
    · simp [henabled]

/-- No site of a module names a file that is named like an artifact. -/
def NamesNoArtifact (t : FileTree α) (modulePath : String) : Prop :=
  ∀ s, HoldsSite t modulePath s → ∀ name, namedFile? s.body = some name →
    LeadsToNoArtifact t (quotedPath modulePath name)

section Without

variable {gone : List Location}

theorem readText_without (hsound : t.Sound) (hgone : AllArtifacts t gone) {path text : String}
    (hpath : LeadsToNoArtifact t path) :
    (t.without gone).readText path = .ok text ↔ t.readText path = .ok text :=
  FileTree.readText_without hsound hgone.allFiles fun _ hl => hpath.not_mem hgone hl

/-- A module holds the same sites without some artifacts. -/
theorem holdsSite_without (hsound : t.Sound) (hgone : AllArtifacts t gone)
    (hmodule : LeadsToNoArtifact t modulePath) :
    HoldsSite (t.without gone) modulePath s ↔ HoldsSite t modulePath s := by
  simp only [HoldsSite, readText_without hsound hgone hmodule]

theorem quotedContents_without (hsound : t.Sound) (hgone : AllArtifacts t gone) {body : String}
    (hnames : ∀ name, namedFile? body = some name →
      LeadsToNoArtifact t (quotedPath modulePath name)) :
    quotedContents (t.without gone) modulePath body = quotedContents t modulePath body := by
  unfold quotedContents
  cases hname : namedFile? body with
  | none => rfl
  | some name =>
    refine Option.ext fun contents => ?_
    simp only [Option.bind_some, toOption_eq_some_iff]
    exact readText_without hsound hgone (hnames name hname)

theorem NamesNoArtifact.without (hsound : t.Sound) (hgone : AllArtifacts t gone)
    (hmodule : LeadsToNoArtifact t modulePath) (h : NamesNoArtifact t modulePath) :
    NamesNoArtifact (t.without gone) modulePath := by
  intro s hs name hname
  rw [holdsSite_without hsound hgone hmodule] at hs
  exact (h s hs name hname).without hsound hgone

/-- **A module that names no artifacts keeps the same without some of them.** -/
theorem live_without (hsound : t.Sound) (hgone : AllArtifacts t gone)
    (hmodule : LeadsToNoArtifact t modulePath) (hnames : NamesNoArtifact t modulePath)
    {kind : Site.Kind} {hash : String} :
    Live (t.without gone) modulePath kind hash ↔ Live t modulePath kind hash := by
  unfold Live
  refine exists_congr fun s => ?_
  rw [holdsSite_without hsound hgone hmodule]
  refine and_congr_right fun hs => ?_
  rw [quotedContents_without hsound hgone (hnames s hs)]

end Without

section Relists

variable {listed : FileTree α}

theorem holdsSite_relists (hlisted : listed.Relists t) (hsound : t.Sound) :
    HoldsSite listed modulePath s ↔ HoldsSite t modulePath s := by
  simp only [HoldsSite, hlisted.readText hsound]

/-- The order of directories does not matter for what a module keeps. -/
theorem live_relists (hlisted : listed.Relists t) (hsound : t.Sound) {kind : Site.Kind} {hash : String} :
    Live listed modulePath kind hash ↔ Live t modulePath kind hash := by
  simp only [Live, holdsSite_relists hlisted hsound, quotedContents, hlisted.readText hsound]

theorem namesNoArtifact_relists (hlisted : listed.Relists t) (hsound : t.Sound) :
    NamesNoArtifact listed modulePath ↔ NamesNoArtifact t modulePath := by
  simp only [NamesNoArtifact, holdsSite_relists hlisted hsound, leadsToNoArtifact_relists hlisted hsound]

end Relists

/-! ### What sites hand on -/

/-- What a site of a module hands to a native quoter: its body, or, behind a file quoter, the contents of
the file that it names. The module may have another path as well, from which the named file must not be out
of reach. -/
inductive Hands (t : FileTree α) (filename modulePath : String) (s : Site) : String → Prop
  | body : Hands t filename modulePath s s.body
  | contents {name contents : String} : (namedFile? s.body).isSome = true →
      Quoter.nameIn? s.kind s.body = some name →
      t.readText (quotedPath filename name) = .ok contents →
      LeadsToNoArtifact t (quotedPath filename name) →
      (filename = modulePath ∨ FileTree.checkPath (quotedPath modulePath name) = .ok ()) →
      Hands t filename modulePath s contents

section Paths

variable {filename body : String} {l : Location} {gone : List Location}

/-- **A module keeps what its sites hand on,** whichever artifacts are gone. -/
theorem Hands.live_without (hsound : t.Sound) (hgone : AllArtifacts t gone)
    (hfilename : t.find filename = .ok l) (hmodulePath : t.find modulePath = .ok l)
    (hl : nameAt? l = none) (hs : HoldsSite t filename s) (hbody : Hands t filename modulePath s body) :
    Live (t.without gone) modulePath s.kind (bodyHash body) := by
  have hmodule : LeadsToNoArtifact t modulePath := leadsToNoArtifact_of_find hmodulePath hl
  obtain ⟨source, sites, hsource, henabled, hsites, hmem⟩ := hs
  have hlook : t.look modulePath = t.look filename := by
    rw [FileTree.look, FileTree.look, hfilename, hmodulePath]
  have hholds : HoldsSite (t.without gone) modulePath s := by
    rw [holdsSite_without hsound hgone hmodule]
    refine ⟨source, sites, ?_, henabled, hsites, hmem⟩
    rwa [FileTree.readText_eq_ok_iff, hlook, ← FileTree.readText_eq_ok_iff]
  refine ⟨s, hholds, rfl, ?_⟩
  cases hbody with
  | body => exact .inl rfl
  | contents hone hname hread hplain hreach =>
    rename_i name
    obtain ⟨name', hname'⟩ := Option.isSome_iff_exists.1 hone
    obtain rfl : name' = name := by
      rw [Quoter.nameIn?_eq hname'] at hname
      exact Option.some.inj hname
    obtain ⟨contents, hfile, -⟩ := FileTree.readText_eq_ok_iff.1 hsource
    obtain ⟨l', hl', hfile⟩ := FileTree.look_eq_some_iff.1 hfile
    rw [hfilename] at hl'
    cases hl'
    obtain ⟨quoted, hquoted, htext⟩ := FileTree.readText_eq_ok_iff.1 hread
    obtain ⟨q, hq, hcontents⟩ := FileTree.look_eq_some_iff.1 hquoted
    have hfound : t.find (quotedPath modulePath name') = .ok q :=
      find_quotedPath hsound hfile hfilename hmodulePath hreach hq
    have hleads : LeadsToNoArtifact t (quotedPath modulePath name') :=
      leadsToNoArtifact_of_find hfound (hplain q quoted hq hcontents)
    refine .inr ⟨_, ?_, rfl⟩
    rw [quotedContents, hname', Option.bind_some, toOption_eq_some_iff,
      readText_without hsound hgone hleads, FileTree.readText_eq_ok_iff]
    exact ⟨quoted, FileTree.look_eq_some_iff.2 ⟨q, hfound, hcontents⟩, htext⟩

end Paths

end Quasiquote.Native
