import Mathlib.Data.List.Nodup
import Quasiquote.Commands.Rewrite
import Quasiquote.Proofs.Files.Changes
import Quasiquote.Proofs.Source.Tiling

/-!
# The outputs of rewriting

Files may be rewritten in any order. Whatever the order, the file to which an output was written holds the
output of an input of the same file name. So all outputs are there exactly if inputs of the same file name
have the same output, and inputs of different file names never lose any.

## Main Definitions

* `RewritesEach` — files that are rewritten in some order
* `Rewrites` — the same, with the output directory made first
* `Leaves` — what is known of a tree behind a run

## Main Statements

* `rewriteFile_cases` — what rewriting one file does
* `RewritesEach.leaves` — what a run keeps
* `Rewrites.of_rewriteFiles` — one file after another is one of the orders
* `outputs_kept_iff` — when no output is lost

## Design Notes

A run is taken apart from its first step: what a step put at a location is still there at the end, or a later
step wrote its own output there.
-/

namespace Quasiquote

open FileTree

/-! ### Runs -/

section

variable (o : RewriteOptions) (inputs : Nat)

/-- **Files that are rewritten in some order:** any of those that are left may be next. The results stand in
the order of the paths. -/
inductive RewritesEach : FileTree (List UInt8) → List String → List (Except CommandError Rewritten) →
    FileTree (List UInt8) → Prop
  | nil (files : FileTree (List UInt8)) : RewritesEach files [] [] files
  | next {files mid after : FileTree (List UInt8)} {front back : List String} {path : String}
      {done left : List (Except CommandError Rewritten)} {result : Except CommandError Rewritten} :
      rewriteFile o inputs files path = (result, mid) → front.length = done.length →
      RewritesEach mid (front ++ back) (done ++ left) after →
      RewritesEach files (front ++ path :: back) (done ++ result :: left) after

/-- Files that are rewritten in some order. The output directory of several is made first. -/
inductive Rewrites (files : FileTree (List UInt8)) (paths : List String)
    (results : List (Except CommandError Rewritten)) (after : FileTree (List UInt8)) : Prop
  | direct : (∀ directory, o.output = some directory → paths.length ≤ 1) →
      RewritesEach o paths.length files paths results after → Rewrites files paths results after
  | made {directory : String} {mid : FileTree (List UInt8)} : o.output = some directory →
      1 < paths.length → files.createDirectories directory = (.ok (), mid) →
      RewritesEach o paths.length mid paths results after → Rewrites files paths results after
  | refused {directory : String} {e : IoError} : o.output = some directory → 1 < paths.length →
      files.createDirectories directory = (.error e, after) →
      results = [.error (.unwritable directory e)] → Rewrites files paths results after

end

section

variable {o : RewriteOptions} {inputs : Nat} {files mid after : FileTree (List UInt8)}
  {paths : List String} {path : String} {result : Except CommandError Rewritten}
  {results : List (Except CommandError Rewritten)} {l : Location}

theorem RewritesEach.of_rewriteEach (paths : List String) (files : FileTree (List UInt8)) :
    RewritesEach o inputs files paths (rewriteEach o inputs files paths).1
      (rewriteEach o inputs files paths).2 := by
  induction paths generalizing files with
  | nil => exact .nil files
  | cons path paths ih =>
    have hnone : ([] : List String).length = ([] : List (Except CommandError Rewritten)).length := rfl
    exact .next rfl hnone (ih (rewriteFile o inputs files path).2)

/-- **Rewriting one file after another is one of the orders.** -/
theorem Rewrites.of_rewriteFiles (o : RewriteOptions) (files : FileTree (List UInt8)) (paths : List String) :
    Rewrites o files paths (rewriteFiles o files paths).1 (rewriteFiles o files paths).2 := by
  unfold rewriteFiles
  split
  · next directory houtput =>
    split
    · next hmany =>
      split
      · next hmade => exact .refused houtput hmany hmade rfl
      · next hmade => exact .made houtput hmany hmade (.of_rewriteEach paths _)
    · next hfew => exact .direct (fun _ _ => Nat.not_lt.1 hfew) (.of_rewriteEach paths files)
  · next hnone =>
    refine .direct (fun directory houtput => ?_) (.of_rewriteEach paths files)
    rw [hnone] at houtput
    cases houtput

/-- **What rewriting one file does.** Unless the output was written to a file, the tree stays. -/
theorem rewriteFile_cases (h : rewriteFile o inputs files path = (result, mid)) :
    (mid = files ∧ ∀ r, result = .ok r → r.path = path ∧ r.written = none) ∨
    ∃ source out l, result = .ok ⟨path, source, some out⟩ ∧ outputPath o inputs path = some out ∧
      files.Targets out false l ∧ files.get? l ≠ some .directory ∧
      mid = files.put l (.file (Utf8.encodeString source)) := by
  unfold rewriteFile at h
  split at h
  · cases h
    exact .inl ⟨rfl, by simp⟩
  split at h
  · cases h
    exact .inl ⟨rfl, by simp⟩
  split at h
  · cases h
    refine .inl ⟨rfl, fun r hr => ?_⟩
    cases hr
    exact ⟨rfl, rfl⟩
  next out hout =>
  split at h
  · cases h
    exact .inl ⟨rfl, by simp⟩
  · next hwrite =>
    cases h
    obtain ⟨l, htargets, hfree, rfl⟩ := write_eq_ok hwrite
    exact .inr ⟨_, out, l, rfl, hout, htargets, hfree, rfl⟩

/-! ### What a run keeps -/

/-- Some output was written to a location, which holds it. -/
def HoldsOutput (after : FileTree (List UInt8)) (results : List (Except CommandError Rewritten))
    (l : Location) : Prop :=
  ∃ r out, .ok r ∈ results ∧ r.written = some out ∧ after.Targets out false l ∧
    after.get? l = some (.file (Utf8.encodeString r.source))

/-- **What is known of a tree behind a run.** -/
structure Leaves (files : FileTree (List UInt8)) (results : List (Except CommandError Rewritten))
    (after : FileTree (List UInt8)) : Prop where
  /-- Directories stay, and no file goes. -/
  keeps : files.Keeps after
  /-- A location that does not hold what it held holds an output. -/
  changed : ∀ l, after.get? l = files.get? l ∨ HoldsOutput after results l
  /-- Where an output was written, there is one. -/
  written : ∀ r out, .ok r ∈ results → r.written = some out →
    ∃ l, after.Targets out false l ∧ HoldsOutput after results l

theorem HoldsOutput.mono {results' : List (Except CommandError Rewritten)}
    (h : HoldsOutput after results l) (hsub : ∀ r ∈ results, r ∈ results') :
    HoldsOutput after results' l := by
  obtain ⟨r, out, hr, hrest⟩ := h
  exact ⟨r, out, hsub _ hr, hrest⟩

/-- **What a run keeps.** -/
theorem RewritesEach.leaves (h : RewritesEach o inputs files paths results after) :
    Leaves files results after := by
  induction h with
  | nil files => exact ⟨.refl files, fun _ => .inl rfl, by simp⟩
  | @next files mid after front back path done left result hstep _ _ ih =>
    have hsub : ∀ r ∈ done ++ left, r ∈ done ++ result :: left := by
      intro r hr
      rw [List.mem_append, List.mem_cons]
      exact (List.mem_append.1 hr).imp_right .inr
    have hlater (r : Rewritten) (out : String) (hr : .ok r ∈ done ++ left) (hout : r.written = some out) :
        ∃ l, after.Targets out false l ∧ HoldsOutput after (done ++ result :: left) l := by
      obtain ⟨l, htargets, hholds⟩ := ih.written r out hr hout
      exact ⟨l, htargets, hholds.mono hsub⟩
    have hcases (r : Rewritten) (hr : .ok r ∈ done ++ result :: left) :
        result = .ok r ∨ .ok r ∈ done ++ left := by
      rw [List.mem_append, List.mem_cons] at hr
      rw [List.mem_append]
      rcases hr with hr | hr | hr
      · exact .inr (.inl hr)
      · exact .inl hr.symm
      · exact .inr (.inr hr)
    rcases rewriteFile_cases hstep with ⟨rfl, hnone⟩ | ⟨source, out, l, rfl, -, htargets, hfree, rfl⟩
    · refine ⟨ih.keeps, fun l => (ih.changed l).imp_right (·.mono hsub), fun r out hr hout => ?_⟩
      rcases hcases r hr with hr | hr
      · rw [(hnone r hr).2] at hout
        cases hout
      · exact hlater r out hr hout
    · have hput := keeps_put hfree (.file (Utf8.encodeString source))
      -- what this step wrote is still there, unless a later one wrote there
      have hhere : HoldsOutput after (done ++ .ok ⟨path, source, some out⟩ :: left) l := by
        rcases ih.changed l with hsame | hholds
        · rw [get?_put_self hfree] at hsame
          exact ⟨⟨path, source, some out⟩, out, by simp, rfl, ih.keeps.targets (hput.targets htargets), hsame⟩
        · exact hholds.mono hsub
      refine ⟨hput.trans ih.keeps, fun m => ?_, fun r out' hr hout => ?_⟩
      · rcases ih.changed m with hsame | hholds
        · rw [get?_put _ _ _ (isPrefixOf_current_eq_false hfree)] at hsame
          split at hsame
          · next heq => exact .inr (heq ▸ hhere)
          · exact .inl hsame
        · exact .inr (hholds.mono hsub)
      · rcases hcases r hr with hr | hr
        · cases hr
          cases hout
          exact ⟨l, ih.keeps.targets (hput.targets htargets), hhere⟩
        · exact hlater r out' hr hout

/-! ### Results and their paths -/

/-- **Results match the paths.** A file that was written is the output file for its path. -/
structure Matches (o : RewriteOptions) (inputs : Nat) (paths : List String)
    (results : List (Except CommandError Rewritten)) : Prop where
  length : paths.length = results.length
  path : ∀ p r, (p, .ok r) ∈ paths.zip results → r.path = p
  written : ∀ p r out, (p, .ok r) ∈ paths.zip results → r.written = some out →
    outputPath o inputs p = some out

theorem RewritesEach.matches (h : RewritesEach o inputs files paths results after) :
    Matches o inputs paths results := by
  induction h with
  | nil files => exact ⟨rfl, by simp, by simp⟩
  | @next files mid after front back path done left result hstep hlength _ ih =>
    have hcases {pair : String × Except CommandError Rewritten}
        (hpair : pair ∈ (front ++ path :: back).zip (done ++ result :: left)) :
        pair = (path, result) ∨ pair ∈ (front ++ back).zip (done ++ left) := by
      rw [List.zip_append hlength, List.zip_cons_cons, List.mem_append, List.mem_cons] at hpair
      rw [List.zip_append hlength, List.mem_append]
      rcases hpair with hpair | hpair | hpair
      · exact .inr (.inl hpair)
      · exact .inl hpair
      · exact .inr (.inr hpair)
    refine ⟨?_, fun p r hr => ?_, fun p r out hr hout => ?_⟩
    · have hrest := ih.length
      simp only [List.length_append, List.length_cons] at hrest ⊢
      omega
    · rcases hcases hr with heq | hr
      · cases heq
        rcases rewriteFile_cases hstep with ⟨-, hnone⟩ | ⟨source, out, l, hresult, -⟩
        · exact (hnone r rfl).1
        · cases hresult
          rfl
      · exact ih.path p r hr
    · rcases hcases hr with heq | hr
      · cases heq
        rcases rewriteFile_cases hstep with ⟨-, hnone⟩ | ⟨source, out', l, hresult, hpath, -⟩
        · rw [(hnone r rfl).2] at hout
          cases hout
        · cases hresult
          cases hout
          exact hpath
      · exact ih.written p r out hr hout

namespace Matches

variable {r r' : Rewritten} {out out' : String} (h : Matches o paths.length paths results)
include h

theorem exists_path (hr : .ok r ∈ results) : (r.path, .ok r) ∈ paths.zip results := by
  have hsecond : (paths.zip results).map Prod.snd = results :=
    List.map_snd_zip (Nat.le_of_eq h.length.symm)
  rw [← hsecond, List.mem_map] at hr
  obtain ⟨⟨p, result⟩, hpair, rfl⟩ := hr
  rwa [h.path p r hpair]

/-- The output of one of several inputs goes to a location with the file name of the input. -/
theorem fileName (hmany : paths.length ≠ 1) (hr : .ok r ∈ results) (hout : r.written = some out)
    (htargets : after.Targets out false l) :
    ∃ holder name, Path.fileName? r.path = some name ∧ l = holder ++ [name] := by
  have hpath := h.written _ r out (h.exists_path hr) hout
  obtain ⟨directory, -, rfl⟩ := Option.map_eq_some_iff.1 hpath
  obtain ⟨front, holder, name, blanks, -, hpieces, -, hblanks, -, -, hname, -, rfl⟩ :=
    htargets.exists_pieces
  rw [hblanks rfl, if_neg hmany] at hpieces
  exact ⟨holder, name, Path.fileName?_of_pieces_join hpieces hname, rfl⟩

/-- Outputs at one location are those of inputs of one file name. -/
theorem sameName (hr : .ok r ∈ results) (hr' : .ok r' ∈ results) (hout : r.written = some out)
    (hout' : r'.written = some out') (htargets : after.Targets out false l)
    (htargets' : after.Targets out' false l) : Path.fileName? r.path = Path.fileName? r'.path := by
  by_cases hone : paths.length = 1
  · obtain ⟨result, rfl⟩ := List.length_eq_one_iff.1 (h.length.symm.trans hone)
    cases (List.mem_singleton.1 hr).trans (List.mem_singleton.1 hr').symm
    rfl
  · obtain ⟨holder, name, hname, rfl⟩ := h.fileName hone hr hout htargets
    obtain ⟨holder', name', hname', heq⟩ := h.fileName hone hr' hout' htargets'
    rw [hname, hname', List.singleton_inj.1 (List.append_inj' heq rfl).2]

/-- Inputs of one file name have one output file. -/
theorem sameFile (hr : .ok r ∈ results) (hr' : .ok r' ∈ results) (hout : r.written = some out)
    (hout' : r'.written = some out') (htargets : after.Targets out false l)
    (hname : Path.fileName? r.path = Path.fileName? r'.path) : out = out' := by
  have hpath := h.written _ r out (h.exists_path hr) hout
  have hpath' := h.written _ r' out' (h.exists_path hr') hout'
  refine Option.some.inj (hpath.symm.trans (Eq.trans ?_ hpath'))
  by_cases hone : paths.length = 1
  · rw [outputPath, outputPath, hone]
    rfl
  · obtain ⟨holder, name, hsome, -⟩ := h.fileName hone hr hout htargets
    rw [outputPath, outputPath, ← hname, hsome, Option.getD_some, Option.getD_some]

/-- Inputs of different file names have one result each. -/
theorem eq_of_nodup (hnodup : (paths.map Path.fileName?).Nodup) (hr : .ok r ∈ results)
    (hr' : .ok r' ∈ results) (hname : Path.fileName? r.path = Path.fileName? r'.path) : r = r' := by
  have hpairs : ((paths.zip results).map fun pair => Path.fileName? pair.1).Nodup := by
    have hmap : (paths.zip results).map (fun pair => Path.fileName? pair.1) =
        ((paths.zip results).map Prod.fst).map Path.fileName? := by rw [List.map_map]; rfl
    rwa [hmap, List.map_fst_zip (Nat.le_of_eq h.length)]
  have hpair := List.inj_on_of_nodup_map hpairs (h.exists_path hr) (h.exists_path hr') hname
  exact Except.ok.inj (congrArg Prod.snd hpair)

end Matches

/-! ### Outputs that are kept -/

/-- **No output is lost:** every file to which an output was written holds that output. -/
def OutputsKept (results : List (Except CommandError Rewritten)) (after : FileTree (List UInt8)) : Prop :=
  ∀ r out, .ok r ∈ results → r.written = some out → after.read out = .ok (Utf8.encodeString r.source)

/-- Whatever was written to a file, the file holds an output of an input of the same file name. -/
theorem Leaves.read (h : Leaves files results after) (hmatches : Matches o paths.length paths results)
    {r : Rewritten} {out : String} (hr : .ok r ∈ results) (hout : r.written = some out) :
    ∃ r', .ok r' ∈ results ∧ r'.written.isSome ∧ Path.fileName? r'.path = Path.fileName? r.path ∧
      after.read out = .ok (Utf8.encodeString r'.source) := by
  obtain ⟨l, htargets, r', out', hr', hout', htargets', hfile⟩ := h.written r out hr hout
  refine ⟨r', hr', by rw [hout']; rfl, hmatches.sameName hr' hr hout' hout htargets' htargets, ?_⟩
  have hfind := htargets.find (by rw [hfile]; rfl)
  rw [FileTree.read, hfind]
  show after.readAt l = _
  rw [readAt, hfile]

/-- A run answers with one error, or what it leaves behind is known. -/
theorem Rewrites.cases (h : Rewrites o files paths results after) :
    (∃ e, results = [.error e]) ∨
      ∃ mid, Leaves mid results after ∧ Matches o paths.length paths results := by
  cases h with
  | direct _ heach => exact .inr ⟨files, heach.leaves, heach.matches⟩
  | @made _ mid _ _ _ heach => exact .inr ⟨mid, heach.leaves, heach.matches⟩
  | refused _ _ _ hresults => exact .inl ⟨_, hresults⟩

/-- **When no output is lost.** In whatever order files are rewritten, every file to which an output was
written holds an output of an input of the same file name. So no output is lost exactly if inputs of the same
file name, written both, have the same output; if all inputs have different file names, none is ever
lost. -/
theorem outputs_kept_iff (h : Rewrites o files paths results after) :
    (∀ r out, .ok r ∈ results → r.written = some out → ∃ r', .ok r' ∈ results ∧ r'.written.isSome ∧
      Path.fileName? r'.path = Path.fileName? r.path ∧
      after.read out = .ok (Utf8.encodeString r'.source)) ∧
    (OutputsKept results after ↔ ∀ r r', .ok r ∈ results → .ok r' ∈ results → r.written.isSome →
      r'.written.isSome → Path.fileName? r.path = Path.fileName? r'.path → r.source = r'.source) ∧
    ((paths.map Path.fileName?).Nodup → OutputsKept results after) := by
  rcases h.cases with ⟨e, rfl⟩ | ⟨mid, hleaves, hmatches⟩
  · exact ⟨by simp, by simp [OutputsKept], fun _ => by simp [OutputsKept]⟩
  have hread (r : Rewritten) (out : String) (hr : .ok r ∈ results) (hout : r.written = some out) :=
    hleaves.read hmatches hr hout
  have hkept (hsame : ∀ r r', .ok r ∈ results → .ok r' ∈ results → r.written.isSome →
      r'.written.isSome → Path.fileName? r.path = Path.fileName? r'.path → r.source = r'.source) :
      OutputsKept results after := by
    intro r out hr hout
    obtain ⟨r', hr', hsome, hname, hfile⟩ := hread r out hr hout
    rw [hfile, hsame r' r hr' hr hsome (by rw [hout]; rfl) hname]
  refine ⟨hread, ⟨fun hall r r' hr hr' hsome hsome' hname => ?_, hkept⟩, fun hnodup => hkept ?_⟩
  · obtain ⟨out, hout⟩ := Option.isSome_iff_exists.1 hsome
    obtain ⟨out', hout'⟩ := Option.isSome_iff_exists.1 hsome'
    obtain ⟨l, htargets, -⟩ := hleaves.written r out hr hout
    -- both outputs are in the same file
    obtain rfl := hmatches.sameFile hr hr' hout hout' htargets hname
    have hboth := (hall r out hr hout).symm.trans (hall r' out hr' hout')
    exact Utf8.encodeString_injective (Except.ok.inj hboth)
  · intro r r' hr hr' _ _ hname
    rw [hmatches.eq_of_nodup hnodup hr hr' hname]

end

/-- Two files of one name in different directories. -/
def twinTree : FileTree (List UInt8) :=
  ((FileTree.emptyAt ["w"]).plant "a/m.py" (Utf8.encodeString "x = 1\n")).plant "b/m.py"
    (Utf8.encodeString "y = 2\n")

/-- The results of rewriting both into one directory. -/
def twinResults : List (Except CommandError Rewritten) :=
  [.ok ⟨"a/m.py", "x = 1\n", some "out/m.py"⟩, .ok ⟨"b/m.py", "y = 2\n", some "out/m.py"⟩]

theorem twinTree_output_lost :
    ∃ after, Rewrites ⟨some "out", false⟩ twinTree ["a/m.py", "b/m.py"] twinResults after ∧
      ¬ OutputsKept twinResults after := by
  have hresults : (rewriteFiles ⟨some "out", false⟩ twinTree ["a/m.py", "b/m.py"]).1 = twinResults := by
    decide +kernel
  have h := Rewrites.of_rewriteFiles ⟨some "out", false⟩ twinTree ["a/m.py", "b/m.py"]
  rw [hresults] at h
  refine ⟨_, h, fun hkept => ?_⟩
  have hsame := (outputs_kept_iff h).2.1.1 hkept ⟨"a/m.py", "x = 1\n", some "out/m.py"⟩
    ⟨"b/m.py", "y = 2\n", some "out/m.py"⟩ (by simp [twinResults]) (by simp [twinResults]) rfl rfl
    (by decide +kernel)
  exact absurd hsame (by decide)

end Quasiquote
