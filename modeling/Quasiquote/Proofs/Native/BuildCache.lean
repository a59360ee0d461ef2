import Quasiquote.Native.BuildCache
import Quasiquote.Proofs.Files.Sound

/-!
# Runs of the build cache

What is loaded, what was counted and what is locked agree with the answers that a cache has given since it
was last cleared. A query that is refused leaves the files as they were, except that an artifact that does
not load is gone.

## Main Definitions

* `Native.BuildCache.Query` — a call for the artifact of a key
* `Native.BuildCache.Query.Tame` — its build and its load change nothing but the temporary file
* `Native.BuildCache.Exit` — the ways in which a query ends
* `Native.BuildCache.OnTheWay` — the places that the directory of an artifact passes
* `Native.BuildCache.Run` — a cache over files, and its answers since it was last cleared
* `Native.BuildCache.Agrees` — a cache agrees with the answers that it has given
* `Native.BuildCache.Run.Consistent` — what holds behind every run

## Main Statements

* `Native.BuildCache.ends_buildAndLoad` — how a fresh build ends, without its temporary file
* `Native.BuildCache.exit_ask` — how a query ends
* `Native.BuildCache.Agrees.exit` — every query keeps a cache in agreement with its answers
* `Native.BuildCache.Exit.harmless` — what a query that is refused leaves of the files
* `Native.BuildCache.Run.consistent_after` — every run is consistent

## Design Notes

A path that goes up with two dots may lead somewhere only once a directory has been made that it passes. So it
is the locations of which it is said in general that they hold what they held, and of paths that do not go up
that they lead to the same.
-/

namespace Quasiquote.Native.BuildCache

variable {κ β α : Type}

/-- A call for the artifact of a key. -/
structure Query (κ β α : Type) where
  key : κ
  artifact : String
  build : Build α
  load : Load α β

/-- The build of a query only makes the contents of the temporary file, and its load only reads. -/
structure Query.Tame (q : Query κ β α) : Prop where
  build : ∀ files, (q.build files).2 = files
  load : ∀ path files, (q.load path files).2 = files

/-- The tree with the directory in which an artifact is built. -/
def withDirectory (files : FileTree α) (artifact : String) : FileTree α :=
  (files.createDirectories (Path.directoryOf artifact)).2

/-! ### Fresh builds -/

section Fresh

variable {files files' : FileTree α} {directory path : String}

/-- A temporary file is a new file. -/
theorem createUnused_eq_ok [Inhabited α] {paths : List String}
    (h : createUnused files paths = .ok (path, files')) :
    ∃ l, files.Targets path false l ∧ files.get? l = none ∧ files' = files.put l (.file default) := by
  induction paths with
  | nil => cases h
  | cons first paths ih =>
    rw [createUnused] at h
    split at h
    · next hcreate =>
      cases h
      exact FileTree.createFile_eq_ok hcreate
    · exact ih h
    · cases h

/-- How a fresh build ends, whose artifact is to stand in a tree with all the directories it takes. -/
inductive Ends (made : FileTree α) (artifact : String) : Fresh β α → Prop
  /-- The build is refused. -/
  | refused {e : CacheError} {attempted : Bool} (h : ∀ cause, e ≠ .load cause) :
    Ends made artifact ⟨.error e, attempted, false, made⟩
  /-- The build is loaded. -/
  | built {l : Location} {contents : α} {value : β} (htargets : made.Targets artifact false l)
    (hfree : made.get? l ≠ some .directory) :
    Ends made artifact ⟨.ok value, true, true, made.put l (.file contents)⟩
  /-- The build does not load. -/
  | unloadable {l : Location} {contents : α} {cause : LoadError} (htargets : made.Targets artifact false l)
    (hfree : made.get? l ≠ some .directory) :
    Ends made artifact ⟨.error (.load cause), true, true, (made.put l (.file contents)).erase l⟩

section NewFile

variable {l : Location} {contents : α} (htargets : files.Targets path false l)
include htargets

/-- A build into a new file fails, or makes its contents. -/
theorem buildInto_put (hnone : files.get? l = none) {build : Build α}
    (hbuild : ∀ files, (build files).2 = files) :
    (∃ e, buildInto path build (files.put l (.file contents)) = (.error e, files.put l (.file contents))) ∨
      ∃ made, buildInto path build (files.put l (.file contents)) = (.ok (), files.put l (.file made)) := by
  have htree := hbuild (files.put l (.file contents))
  rw [buildInto]
  split
  · next e files' hresult =>
    rw [hresult] at htree
    exact .inl ⟨e, by rw [← htree]⟩
  · next made files' hresult =>
    rw [hresult] at htree
    rw [show files' = _ from htree, FileTree.write_put htargets hnone]
    exact .inr ⟨made, rfl⟩

theorem discard_new (hnone : files.get? l = none) : discard (files.put l (.file contents)) path = files := by
  rw [discard, FileTree.remove_put htargets hnone]

theorem discard_put (hfree : files.get? l ≠ some .directory) :
    discard (files.put l (.file contents)) path = (files.put l (.file contents)).erase l := by
  have hremove : (files.put l (.file contents)).remove path = .ok ((files.put l (.file contents)).erase l) :=
    FileTree.remove_eq_ok_iff.2 ⟨l, contents, htargets.find_put hfree _, FileTree.get?_put_self hfree, rfl⟩
  rw [discard, hremove]

end NewFile

/-- **A fresh build** ends in one of these ways. The temporary file is gone in each of them. -/
theorem ends_buildAndLoad [Inhabited α] (files : FileTree α) (artifact : String) {build : Build α}
    {load : Load α β} (hbuild : ∀ files, (build files).2 = files)
    (hload : ∀ path files, (load path files).2 = files) :
    Ends (withDirectory files artifact) artifact (buildAndLoad files artifact build load) := by
  unfold buildAndLoad withDirectory
  simp only
  obtain ⟨result, made⟩ := files.createDirectories (Path.directoryOf artifact)
  cases result with
  | error e => exact .refused nofun
  | ok =>
    simp only
    split
    · exact .refused nofun
    · next temporary files' htemporary =>
      obtain ⟨l, htargets, hnone, rfl⟩ := createUnused_eq_ok htemporary
      rcases buildInto_put htargets hnone hbuild with ⟨e, hbuilt⟩ | ⟨contents, hbuilt⟩
      · rw [hbuilt]
        simp only
        rw [discard_new htargets hnone]
        exact .refused nofun
      · rw [hbuilt]
        simp only
        rw [FileTree.rename_put htargets hnone]
        split
        · rw [discard_new htargets hnone]
          exact .refused nofun
        · next files' hpublish =>
          obtain ⟨m, htargets, hfree, rfl⟩ := FileTree.publish_eq_ok hpublish
          have htree := hload artifact (made.put m (.file contents))
          split
          · next value files' hresult =>
            rw [hresult] at htree
            exact (show files' = _ from htree) ▸ .built htargets hfree
          · next cause files' hresult =>
            rw [hresult] at htree
            rw [show files' = _ from htree, discard_put htargets hfree]
            exact .unloadable htargets hfree

end Fresh

/-! ### The ways in which a query ends -/

theorem existing_cases (files : FileTree α) (artifact : String) {load : Load α β}
    (hload : ∀ path files, (load path files).2 = files) :
    (∃ value, files.isFile artifact = true ∧ existing files artifact load = (some value, files)) ∨
      existing files artifact load = (none, files) := by
  have htree := hload artifact files
  unfold existing
  split
  · next hfile =>
    split
    · next value files' hresult =>
      rw [hresult] at htree
      exact .inl ⟨value, hfile, by rw [← htree]⟩
    · next files' hresult =>
      rw [hresult] at htree
      exact .inr (by rw [← htree])
  · exact .inr rfl

section Queries

variable [DecidableEq κ] [Inhabited α] {c : BuildCache κ β} {q : Query κ β α}

/-- Ask a cache over files. -/
def ask (c : BuildCache κ β) (files : FileTree α) (q : Query κ β α) : Lookup κ β α :=
  c.getOrBuild files q.key q.artifact q.build q.load

/-- The ways in which a query ends. -/
inductive Exit (c : BuildCache κ β) (files : FileTree α) (q : Query κ β α) : Lookup κ β α → Prop
  /-- The key is loaded. -/
  | memory {shared : Shared β} (h : c.loaded.get? q.key = some shared) :
    Exit c files q ⟨.ok shared, false, c.countMemoryHit, files⟩
  /-- The artifact was there. -/
  | disk {value : β} (h : c.loaded.get? q.key = none) (hfile : files.isFile q.artifact = true) :
    Exit c files q
      ⟨.ok ((c.lock q.key).countDiskHit.store q.key value).1, false,
        ((c.lock q.key).countDiskHit.store q.key value).2, files⟩
  /-- No artifact was made. -/
  | refused {e : CacheError} {attempted : Bool} (h : c.loaded.get? q.key = none)
    (he : ∀ cause, e ≠ .load cause) :
    Exit c files q ⟨.error e, attempted, c.lock q.key, withDirectory files q.artifact⟩
  /-- The artifact was built. -/
  | built {value : β} {l : Location} {contents : α} (h : c.loaded.get? q.key = none)
    (htargets : (withDirectory files q.artifact).Targets q.artifact false l)
    (hfree : (withDirectory files q.artifact).get? l ≠ some .directory) :
    Exit c files q
      ⟨.ok ((c.lock q.key).countBuild.store q.key value).1, true,
        ((c.lock q.key).countBuild.store q.key value).2,
        (withDirectory files q.artifact).put l (.file contents)⟩
  /-- The artifact was built and does not load. -/
  | unloadable {cause : LoadError} {l : Location} {contents : α} (h : c.loaded.get? q.key = none)
    (htargets : (withDirectory files q.artifact).Targets q.artifact false l)
    (hfree : (withDirectory files q.artifact).get? l ≠ some .directory) :
    Exit c files q
      ⟨.error (.load cause), true, (c.lock q.key).countBuild,
        ((withDirectory files q.artifact).put l (.file contents)).erase l⟩

/-- A loaded key is given without a build or a load, whatever they would do to the files. -/
theorem getOrBuild_of_loaded {key : κ} {shared : Shared β} (h : c.loaded.get? key = some shared)
    (files : FileTree α) (artifact : String) (build : Build α) (load : Load α β) :
    c.getOrBuild files key artifact build load = ⟨.ok shared, false, c.countMemoryHit, files⟩ := by
  rw [getOrBuild, h]

/-- **A query** ends in one of these ways. -/
theorem exit_ask (c : BuildCache κ β) (files : FileTree α) (hq : q.Tame) :
    Exit c files q (c.ask files q) := by
  unfold ask
  cases h : c.loaded.get? q.key with
  | some shared =>
    rw [getOrBuild_of_loaded h]
    exact .memory h
  | none =>
    rw [getOrBuild, h]
    simp only
    rcases existing_cases files q.artifact hq.load with ⟨value, hfile, hexisting⟩ | hexisting
    · rw [hexisting]
      exact .disk h hfile
    rw [hexisting]
    have hends := ends_buildAndLoad files q.artifact hq.build hq.load
    simp only
    revert hends
    generalize buildAndLoad files q.artifact q.build q.load = fresh
    intro hends
    cases hends with
    | refused he => exact .refused h he
    | built htargets hfree => exact .built h htargets hfree
    | unloadable htargets hfree => exact .unloadable h htargets hfree

end Queries

/-! ### What a cache has answered -/

/-- The answer to a query. -/
structure Answer (κ β : Type) where
  key : κ
  attempted : Bool
  result : Except CacheError (Shared β)

namespace Answer

/-- The query was given an artifact. -/
def served (a : Answer κ β) : Bool := a.result.isOk

/-- The query was given what was built for it. -/
def built (a : Answer κ β) : Bool := a.served && a.attempted

/-- What was built for the query did not load. -/
def unloadable (a : Answer κ β) : Bool :=
  match a.result with
  | .error (.load _) => true
  | _ => false

@[simp] theorem served_ok (key : κ) (attempted : Bool) (shared : Shared β) :
    (⟨key, attempted, .ok shared⟩ : Answer κ β).served = true := rfl

@[simp] theorem served_error (key : κ) (attempted : Bool) (e : CacheError) :
    (⟨key, attempted, .error e⟩ : Answer κ β).served = false := rfl

theorem served_iff {a : Answer κ β} : a.served = true ↔ ∃ shared, a.result = .ok shared := by
  unfold served
  cases a.result <;> simp [Except.isOk, Except.toBool]

end Answer

section Agrees

variable [DecidableEq κ]

/-- **A cache agrees with its answers** since it was last cleared. -/
structure Agrees (c : BuildCache κ β) (answers : List (Answer κ β)) : Prop where
  /-- What is loaded is what was given. -/
  loaded : ∀ key shared, c.loaded.get? key = some shared ↔ ∃ a ∈ answers, a.key = key ∧ a.result = .ok shared
  /-- No key was built twice with success. -/
  builtOnce : ∀ key, answers.countP (fun a => a.key = key ∧ a.built) ≤ 1
  /-- A build is counted whether it loads or not. -/
  builds : c.stats.builds = answers.countP Answer.built + answers.countP Answer.unloadable
  /-- What was given without a build is a hit. -/
  hits : c.stats.memoryHits + c.stats.diskHits = answers.countP fun a => a.served && !a.attempted
  /-- A key that is loaded is not locked. -/
  unlocked : ∀ key ∈ c.locks, c.loaded.get? key = none

namespace Agrees

theorem empty (made : Nat) : Agrees { (.empty : BuildCache κ β) with made } [] where
  loaded _ _ := by simp [BuildCache.empty]
  builtOnce _ := by simp
  builds := rfl
  hits := rfl
  unlocked _ h := nomatch h

variable {c : BuildCache κ β} {answers : List (Answer κ β)} {key : κ}

/-- A key that is not loaded was not given. -/
theorem not_served (h : c.Agrees answers) (hnone : c.loaded.get? key = none) {a : Answer κ β}
    (ha : a ∈ answers) (hkey : a.key = key) : a.served = false := by
  rw [← Bool.not_eq_true, Answer.served_iff]
  rintro ⟨shared, hresult⟩
  rw [(h.loaded key shared).2 ⟨a, ha, hkey, hresult⟩] at hnone
  cases hnone

theorem builtOnce_zero (h : c.Agrees answers) (hnone : c.loaded.get? key = none) :
    answers.countP (fun a => a.key = key ∧ a.built) = 0 := by
  rw [List.countP_eq_zero]
  intro a ha hbuilt
  simp only [Answer.built, Bool.and_eq_true, decide_eq_true_eq] at hbuilt
  rw [h.not_served hnone ha hbuilt.1] at hbuilt
  exact Bool.false_ne_true hbuilt.2.1

/-- Loading a key. -/
theorem store (c' : BuildCache κ β) (h : c.Agrees answers) (hnone : c.loaded.get? key = none)
    (hloaded : c'.loaded = c.loaded) (hlocks : ∀ other ∈ c'.locks, other = key ∨ other ∈ c.locks)
    {attempted : Bool} (value : β) (hbuilds : c'.stats.builds = c.stats.builds + attempted.toNat)
    (hhits : c'.stats.memoryHits + c'.stats.diskHits =
      c.stats.memoryHits + c.stats.diskHits + (!attempted).toNat) :
    (c'.store key value).2.Agrees (⟨key, attempted, .ok (c'.store key value).1⟩ :: answers) where
  loaded other shared := by
    rw [get?_loaded_store, hloaded]
    by_cases hkey : other = key
    · have hno : ¬ ∃ a ∈ answers, a.key = key ∧ a.result = .ok shared := by
        rw [← h.loaded, hnone]
        simp
      simp [hkey, hno]
    · simp [hkey, Ne.symm hkey, h.loaded]
  builtOnce other := by
    rw [List.countP_cons]
    by_cases hkey : key = other
    · rw [h.builtOnce_zero (hkey ▸ hnone)]
      split <;> omega
    · simpa [hkey] using h.builtOnce other
  builds := by
    show c'.stats.builds = _
    rw [hbuilds, h.builds]
    cases attempted with
    | false => simp [Answer.built, Answer.unloadable]
    | true =>
      simp [Answer.built, Answer.unloadable]
      omega
  hits := by
    show c'.stats.memoryHits + c'.stats.diskHits = _
    rw [hhits, h.hits]
    cases attempted <;> simp
  unlocked other hother := by
    rw [mem_locks_store] at hother
    rw [get?_loaded_store, if_neg hother.2, hloaded]
    exact h.unlocked other ((hlocks other hother.1).resolve_left hother.2)

/-- Refusing a query. -/
theorem refuse (c' : BuildCache κ β) (h : c.Agrees answers) (hnone : c.loaded.get? key = none)
    (hloaded : c'.loaded = c.loaded) (hlocks : ∀ other ∈ c'.locks, other = key ∨ other ∈ c.locks)
    {attempted : Bool} {e : CacheError}
    (hbuilds : c'.stats.builds = c.stats.builds +
      (Answer.unloadable (⟨key, attempted, .error e⟩ : Answer κ β)).toNat)
    (hhits : c'.stats.memoryHits + c'.stats.diskHits = c.stats.memoryHits + c.stats.diskHits) :
    c'.Agrees (⟨key, attempted, .error e⟩ :: answers) where
  loaded other shared := by
    rw [hloaded, h.loaded]
    simp
  builtOnce other := by simpa [Answer.built] using h.builtOnce other
  builds := by
    rw [hbuilds, h.builds]
    cases hunloadable : Answer.unloadable (⟨key, attempted, .error e⟩ : Answer κ β) with
    | false => simp [Answer.built, hunloadable]
    | true => simp [Answer.built, hunloadable, Nat.add_assoc]
  hits := by
    rw [hhits, h.hits]
    simp
  unlocked other hother := by
    rw [hloaded]
    rcases hlocks other hother with rfl | hother
    · exact hnone
    · exact h.unlocked other hother

/-- Giving what is loaded. -/
theorem hit (h : c.Agrees answers) {shared : Shared β} (hget : c.loaded.get? key = some shared) :
    c.countMemoryHit.Agrees (⟨key, false, .ok shared⟩ :: answers) where
  loaded other given := by
    show c.loaded.get? other = some given ↔ _
    rw [h.loaded]
    constructor
    · rintro ⟨a, ha, hgiven⟩
      exact ⟨a, List.mem_cons_of_mem _ ha, hgiven⟩
    · rintro ⟨a, ha, hkey, hresult⟩
      rcases List.mem_cons.1 ha with rfl | ha
      · rw [← h.loaded, ← hkey, hget]
        exact congrArg some (Except.ok.inj hresult)
      · exact ⟨a, ha, hkey, hresult⟩
  builtOnce other := by simpa [Answer.built] using h.builtOnce other
  builds := by simpa [Answer.built, Answer.unloadable, countMemoryHit] using h.builds
  hits := by
    have hhits := h.hits
    simp [countMemoryHit]
    omega
  unlocked := h.unlocked

/-- **Every query keeps a cache in agreement with its answers.** -/
theorem exit {files : FileTree α} {q : Query κ β α} {found : Lookup κ β α} (h : c.Agrees answers)
    (hexit : Exit c files q found) :
    found.cache.Agrees (⟨q.key, found.attempted, found.result⟩ :: answers) := by
  have hlocks (other : κ) (hother : other ∈ (c.lock q.key).locks) : other = q.key ∨ other ∈ c.locks :=
    mem_locks_lock.1 hother
  cases hexit with
  | memory hget => exact h.hit hget
  | disk hnone =>
    refine store (c.lock q.key).countDiskHit h hnone (loaded_lock c q.key) hlocks _ ?_ ?_
    · simp [countDiskHit]
    · simp [countDiskHit, Nat.add_assoc]
  | @refused e attempted hnone he =>
    refine refuse (c.lock q.key) h hnone (loaded_lock c q.key) hlocks ?_ ?_
    · cases e with
      | load cause => exact absurd rfl (he cause)
      | build | io => simp [Answer.unloadable]
    · simp
  | built hnone =>
    refine store (c.lock q.key).countBuild h hnone (loaded_lock c q.key) hlocks _ ?_ ?_
    · simp [countBuild]
    · simp [countBuild]
  | unloadable hnone =>
    refine refuse (c.lock q.key).countBuild h hnone (loaded_lock c q.key) hlocks ?_ ?_
    · simp [countBuild, Answer.unloadable]
    · simp [countBuild]

end Agrees

end Agrees

/-! ### What a query does to the files -/

/-- A location is on the way to an artifact: the path of its directory, or one above that, leads there. -/
def OnTheWay (files : FileTree α) (artifact : String) : Location → Prop :=
  files.ReachedBy (Path.ancestors (Path.directoryOf artifact))

/-- **What a refused query leaves of the files.** An artifact that was built and does not load is gone. -/
structure Harmless (before after : FileTree α) (artifact : String) (e : CacheError) : Prop where
  /-- There is no file that was not there, and none has changed. -/
  file : ∀ l contents, after.get? l = some (.file contents) → before.get? l = some (.file contents)
  /-- Directories may have been made on the way to the artifact, and nothing else has changed. -/
  unchanged : (∀ cause, e ≠ .load cause) → FileTree.AddsDirectories (OnTheWay after artifact) before after
  /-- If the artifact's path led somewhere, it still leads there. -/
  find : (∀ cause, e ≠ .load cause) → ∀ l, before.find artifact = .ok l → after.find artifact = .ok l
  /-- The artifact's path leads to the same, and to nothing if it did so, unless it goes up. -/
  look : (∀ cause, e ≠ .load cause) → ".." ∉ Path.pieces artifact → after.look artifact = before.look artifact
  /-- An artifact that does not load is gone. -/
  gone : ∀ cause, e = .load cause → after.look artifact = none
  /-- Where it does not load, only its own place has changed besides. -/
  elsewhere : ∀ cause, e = .load cause → ∃ made l,
    FileTree.AddsDirectories (OnTheWay made artifact) before made ∧ made.Targets artifact false l ∧
      ∀ m, m ≠ l → after.get? m = made.get? m

theorem harmless_refused {files : FileTree α} (hsound : files.Sound) (artifact : String) {e : CacheError}
    (he : ∀ cause, e ≠ .load cause) : Harmless files (withDirectory files artifact) artifact e := by
  have hmade := files.addsDirectories_createDirectories (Path.directoryOf artifact)
  exact ⟨fun _ _ => hmade.file_iff.1, fun _ => hmade, fun _ _ => hmade.keeps.find,
    fun _ hdots => hsound.look_createDirectories hdots, fun cause hcause => absurd hcause (he cause),
    fun cause hcause => absurd hcause (he cause)⟩

theorem harmless_unloadable {files : FileTree α} {artifact : String} {l : Location} {contents : α}
    (htargets : (withDirectory files artifact).Targets artifact false l)
    (hfree : (withDirectory files artifact).get? l ≠ some .directory) (cause : LoadError) :
    Harmless files (((withDirectory files artifact).put l (.file contents)).erase l) artifact
      (.load cause) := by
  have hmade := files.addsDirectories_createDirectories (Path.directoryOf artifact)
  have hput : ((withDirectory files artifact).put l (.file contents)).get? l = some (.file contents) :=
    FileTree.get?_put_self hfree
  have hget (m : Location) := FileTree.get?_erase ((withDirectory files artifact).put l (.file contents)) m
    (FileTree.isPrefixOf_current_eq_false (l := l) (by simp [hput]))
  have helsewhere (m : Location) (hm : m ≠ l) :
      (((withDirectory files artifact).put l (.file contents)).erase l).get? m =
        (withDirectory files artifact).get? m := by
    rw [hget, if_neg hm, FileTree.get?_put _ _ _ (FileTree.isPrefixOf_current_eq_false hfree), if_neg hm]
  refine ⟨fun m other hm => ?_, fun he => absurd rfl (he cause), fun he => absurd rfl (he cause),
    fun he => absurd rfl (he cause), fun _ _ => ?_, fun _ _ => ⟨_, l, hmade, htargets, helsewhere⟩⟩
  · by_cases hne : m = l
    · rw [hget, if_pos hne] at hm
      cases hm
    · exact hmade.file_iff.1 (helsewhere m hne ▸ hm)
  · -- the path leads only to where the artifact was
    rw [Option.eq_none_iff_forall_ne_some]
    intro node hlook
    obtain ⟨m, hm, hnode⟩ := FileTree.look_eq_some_iff.1 hlook
    have hsame := (FileTree.keeps_erase hput).find hm
    rw [htargets.find_put hfree] at hsame
    obtain rfl := Except.ok.inj hsame
    rw [hget, if_pos rfl] at hnode
    cases hnode

namespace Exit

variable [DecidableEq κ] {c : BuildCache κ β} {files : FileTree α} {q : Query κ β α}
  {found : Lookup κ β α} (hexit : Exit c files q found) (hsound : files.Sound)
include hexit hsound

/-- **A refused query** loads nothing and harms no file. -/
theorem harmless {e : CacheError} (h : found.result = .error e) :
    found.cache.loaded = c.loaded ∧ Harmless files found.files q.artifact e := by
  cases hexit with
  | memory | disk | built => cases h
  | refused _ he =>
    cases h
    exact ⟨loaded_lock c q.key, harmless_refused hsound q.artifact he⟩
  | unloadable _ htargets hfree =>
    cases h
    exact ⟨loaded_lock c q.key, harmless_unloadable htargets hfree _⟩

theorem sound : found.files.Sound := by
  have hmade : (withDirectory files q.artifact).Sound := hsound.createDirectories _
  cases hexit with
  | memory | disk => exact hsound
  | refused => exact hmade
  | built _ htargets hfree => exact (htargets.puts hfree _).sound hmade
  | unloadable _ htargets hfree =>
    exact ((htargets.puts hfree _).sound hmade).erase (FileTree.get?_put_self hfree)

end Exit

/-! ### Runs -/

/-- What is done to a cache. -/
inductive Request (κ β α : Type) where
  | ask (q : Query κ β α)
  | clear

/-- The builds and loads of a request change nothing but temporary files. -/
def Request.Tame : Request κ β α → Prop
  | .ask q => q.Tame
  | .clear => True

/-- A cache over files, and its answers since it was last cleared, the last one first. -/
structure Run (κ β α : Type) where
  cache : BuildCache κ β
  files : FileTree α
  answers : List (Answer κ β)

namespace Run

/-- A new cache over files. -/
def start (files : FileTree α) : Run κ β α := ⟨.empty, files, []⟩

section Requests

variable [DecidableEq κ] [Inhabited α] {r : Run κ β α}

/-- What a run is after one more request. -/
def step (r : Run κ β α) : Request κ β α → Run κ β α
  | .ask q =>
    let found := r.cache.ask r.files q
    ⟨found.cache, found.files, ⟨q.key, found.attempted, found.result⟩ :: r.answers⟩
  | .clear => { r with cache := r.cache.clear, answers := [] }

/-- What a run is after some more requests. -/
def after (r : Run κ β α) (requests : List (Request κ β α)) : Run κ β α := requests.foldl step r

/-- **What holds behind every run.** -/
structure Consistent (r : Run κ β α) : Prop where
  /-- A key is loaded if a query for it was given an artifact since the cache was last cleared. -/
  loaded : ∀ key, r.cache.contains key = true ↔ ∃ a ∈ r.answers, a.key = key ∧ a.served = true
  /-- Every other query for the key is given the same, whatever its build and its load would do. -/
  same : ∀ a ∈ r.answers, ∀ shared, a.result = .ok shared →
    ∀ (files : FileTree α) (artifact : String) (build : Build α) (load : Load α β), r.cache.getOrBuild
      files a.key artifact build load = ⟨.ok shared, false, r.cache.countMemoryHit, files⟩
  /-- No key was given what was built for it more than once. -/
  builtOnce : ∀ key, r.answers.countP (fun a => a.key = key ∧ a.built) ≤ 1
  /-- A query that is refused loads nothing and harms no file. -/
  refused : ∀ q : Query κ β α, q.Tame → ∀ e, (r.cache.ask r.files q).result = .error e →
    (r.cache.ask r.files q).cache.loaded = r.cache.loaded ∧
      Harmless r.files (r.cache.ask r.files q).files q.artifact e
  /-- No more builds did not load than were counted. -/
  unloadable_le : r.answers.countP Answer.unloadable ≤ r.cache.stats.builds
  /-- The queries that were given an artifact are the hits, and the builds but those that did not load. -/
  counted : r.answers.countP Answer.served = r.cache.stats.memoryHits + r.cache.stats.diskHits +
    r.cache.stats.builds - r.answers.countP Answer.unloadable
  /-- A key that is loaded is not locked. -/
  unlocked : ∀ key, r.cache.contains key = true → key ∉ r.cache.locks

theorem consistent_of_agrees (h : r.cache.Agrees r.answers) (hsound : r.files.Sound) : r.Consistent where
  loaded key := by
    simp only [contains, Option.isSome_iff_exists, h.loaded, Answer.served_iff]
    constructor
    · rintro ⟨shared, a, ha, hkey, hresult⟩
      exact ⟨a, ha, hkey, shared, hresult⟩
    · rintro ⟨a, ha, hkey, shared, hresult⟩
      exact ⟨shared, a, ha, hkey, hresult⟩
  same a ha shared hresult files artifact build load :=
    getOrBuild_of_loaded ((h.loaded a.key shared).2 ⟨a, ha, rfl, hresult⟩) files artifact build load
  builtOnce := h.builtOnce
  refused q hq e := (exit_ask r.cache r.files hq).harmless hsound
  unloadable_le := h.builds ▸ Nat.le_add_left _ _
  counted := by
    have hserved : r.answers.countP Answer.served =
        r.answers.countP Answer.built + r.answers.countP fun a => a.served && !a.attempted := by
      rw [List.countP_eq_countP_filter_add _ Answer.served Answer.attempted, List.countP_filter,
        List.countP_filter]
      rfl
    rw [h.hits, h.builds, hserved]
    omega
  unlocked key hkey hlock := by
    rw [contains, h.unlocked key hlock] at hkey
    cases hkey

theorem agrees_step {request : Request κ β α} (h : r.cache.Agrees r.answers) (hrequest : request.Tame) :
    (r.step request).cache.Agrees (r.step request).answers := by
  cases request with
  | ask q => exact h.exit (exit_ask r.cache r.files hrequest)
  | clear => exact .empty _

theorem sound_step {request : Request κ β α} (h : r.files.Sound) (hrequest : request.Tame) :
    (r.step request).files.Sound := by
  cases request with
  | ask q => exact (exit_ask r.cache r.files hrequest).sound h
  | clear => exact h

theorem invariant_after {requests : List (Request κ β α)} (h : r.cache.Agrees r.answers)
    (hsound : r.files.Sound) (hrequests : ∀ request ∈ requests, request.Tame) :
    (r.after requests).cache.Agrees (r.after requests).answers ∧ (r.after requests).files.Sound := by
  induction requests generalizing r with
  | nil => exact ⟨h, hsound⟩
  | cons request requests ih =>
    have htame := hrequests request List.mem_cons_self
    exact ih (agrees_step h htame) (sound_step hsound htame) fun other hother =>
      hrequests other (List.mem_cons_of_mem _ hother)

/-- **Every run of a new cache is consistent.** -/
theorem consistent_after {files : FileTree α} (hsound : files.Sound) {requests : List (Request κ β α)}
    (hrequests : ∀ request ∈ requests, request.Tame) :
    ((start files : Run κ β α).after requests).Consistent :=
  let ⟨hagrees, hsound⟩ := invariant_after (r := start files) (.empty 0) hsound hrequests
  consistent_of_agrees hagrees hsound

end Requests

end Run

/-! ### Artifacts that are texts -/

/-- A query for a text, unless it is bad. -/
def textQuery (artifact : String) (built : Except BuildError String) : Query String String String where
  key := "a"
  artifact
  build files := (built, files)
  load path files :=
    match files.read path with
    | .ok text => (if text = "bad" then .error (.noEntry path text) else .ok text, files)
    | .error _ => (.error (.missing path), files)

theorem textQuery_tame (artifact : String) (built : Except BuildError String) :
    (textQuery artifact built).Tame where
  build _ := rfl
  load path files := by
    unfold textQuery
    simp only
    split <;> rfl

/-- A tree with one file. -/
def oneFile (path text : String) : FileTree String := (FileTree.emptyAt []).plant path text

theorem sound_oneFile (path text : String) : (oneFile path text).Sound := by
  have hempty : (FileTree.emptyAt [] : FileTree String).Sound := FileTree.sound_emptyAt (by simp)
  exact hempty.plant path text

/-- A bad artifact stays until another one is built, is removed with that one, and is then built for good. -/
def badRequests : List (Request String String String) :=
  [.ask (textQuery "a.so" (.error .noCompiler)), .clear, .ask (textQuery "a.so" (.ok "bad")),
    .ask (textQuery "a.so" (.ok "good")), .ask (textQuery "a.so" (.error .noCompiler))]

theorem badRequests_tame : ∀ request ∈ badRequests, request.Tame := by
  simp [badRequests, Request.Tame, textQuery_tame]

theorem badRequests_consistent :
    (oneFile "a.so" "bad").Sound ∧ (∀ request ∈ badRequests, request.Tame) ∧
      ((Run.start (oneFile "a.so" "bad")).after badRequests).Consistent ∧
      ((Run.start (oneFile "a.so" "bad") : Run String String String).after badRequests).cache.stats =
        ⟨2, 0, 1⟩ :=
  ⟨sound_oneFile _ _, badRequests_tame, Run.consistent_after (sound_oneFile _ _) badRequests_tame, by decide⟩

/-- A query whose artifact's path goes up from a directory that may not be there. Its build is refused. -/
def risingQuery : Query String String String := textQuery "new/../x.so" (.error .noCompiler)

/-- The path leads nowhere until the directory has been made, and then to a file that was there before. -/
theorem risingQuery_found :
    risingQuery.Tame ∧
      (ask .empty (oneFile "x.so" "old") risingQuery).result = .error (.build .noCompiler) ∧
      (oneFile "x.so" "old").look risingQuery.artifact = none ∧
      (ask .empty (oneFile "x.so" "old") risingQuery).files.look risingQuery.artifact =
        some (.file "old") :=
  ⟨textQuery_tame _ _, rfl, by decide, by decide⟩

end Quasiquote.Native.BuildCache
