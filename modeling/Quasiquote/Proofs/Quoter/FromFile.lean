import Mathlib.Data.List.TakeWhile
import Quasiquote.Proofs.Quoter.Staging

/-!
# What a site that names a file hands on

A block names a file on its only line that is not blank, and an expression is the name. Where a body has
only one such line, both mean the same name.

## Main Definitions

* `Quoter.nameIn?` — the name that a body of some kind holds

## Main Statements

* `Text.trim_around` — blanks on both sides of a text do not count
* `Quoter.nameIn?_eq` — a body with only one line that is not blank names the same in both forms
* `Quoter.run_fromFile_block`, `Quoter.run_fromFile_expression` — the contents of the named file are
  handed on in place of the body
-/

namespace Quasiquote

/-! ### Blanks around a text -/

namespace Text

theorem trimStart_append {blanks : List Char} (h : ∀ c ∈ blanks, isBlank c = true) (text : List Char) :
    trimStart (blanks ++ text) = trimStart text :=
  List.dropWhile_append_of_pos h

theorem trimEnd_append {blanks : List Char} (h : ∀ c ∈ blanks, isBlank c = true) (text : List Char) :
    trimEnd (text ++ blanks) = trimEnd text := by
  rw [trimEnd, List.reverse_append, List.dropWhile_append_of_pos (by simpa using h), trimEnd]

theorem trimEnd_eq_nil_iff {text : List Char} : trimEnd text = [] ↔ ∀ c ∈ text, isBlank c = true := by
  rw [trimEnd, List.reverse_eq_nil_iff, List.dropWhile_eq_nil_iff]
  simp

/-- Nothing is left of a text that is blank, and of no other. -/
theorem trim_eq_nil_iff {text : List Char} : trim text = [] ↔ ∀ c ∈ text, isBlank c = true := by
  rw [trim, trimEnd_eq_nil_iff]
  constructor
  · intro h c hc
    rw [← List.takeWhile_append_dropWhile (p := isBlank) (l := text), List.mem_append] at hc
    rcases hc with hc | hc
    · exact List.mem_takeWhile_imp hc
    · exact h c hc
  · intro h c hc
    exact h c ((List.dropWhile_sublist isBlank).subset hc)

/-- **Blanks on both sides of a text do not count.** -/
theorem trim_around {front back : List Char} (hfront : ∀ c ∈ front, isBlank c = true)
    (hback : ∀ c ∈ back, isBlank c = true) (text : List Char) :
    trim (front ++ (text ++ back)) = trim text := by
  by_cases htext : ∀ c ∈ text, isBlank c = true
  · have hall : ∀ c ∈ front ++ (text ++ back), isBlank c = true := by
      intro c hc
      rw [List.mem_append, List.mem_append] at hc
      rcases hc with hc | hc | hc
      · exact hfront c hc
      · exact htext c hc
      · exact hback c hc
    rw [trim_eq_nil_iff.2 hall, trim_eq_nil_iff.2 htext]
  · have hstart : trimStart (text ++ back) = trimStart text ++ back := by
      rw [trimStart, List.dropWhile_append, if_neg]
      · rfl
      · rw [List.isEmpty_iff, List.dropWhile_eq_nil_iff]
        exact htext
    rw [trim, trimStart_append hfront, hstart, trimEnd_append hback, trim]

/-- What ends a line is blank. -/
theorem exists_lineEnd (line : List Char) :
    ∃ ends, line = dropLineEnd line ++ ends ∧ ∀ c ∈ ends, isBlank c = true := by
  rw [dropLineEnd]
  split
  · next front hline =>
    exact ⟨['\r', '\n'], by rw [List.reverse_eq_iff.1 hline]; simp, by decide⟩
  · next front _ hline =>
    exact ⟨['\n'], by rw [List.reverse_eq_iff.1 hline]; simp, by decide⟩
  · exact ⟨[], by simp, by simp⟩

theorem trim_dropLineEnd (line : List Char) : trim (dropLineEnd line) = trim line := by
  obtain ⟨ends, hline, hends⟩ := exists_lineEnd line
  have hall := trim_around (List.forall_mem_nil _) hends (dropLineEnd line)
  rw [← hline] at hall
  exact hall.symm

end Text

/-- The text of a body that names a file is that name with blanks around it. -/
theorem trim_of_namedFile? {body name : String} (h : namedFile? body = some name) :
    Text.trim body.toList = name.toList := by
  unfold namedFile? at h
  split at h
  · next line hline =>
    cases h
    have htrim : Text.trim ∘ Text.dropLineEnd = Text.trim := funext Text.trim_dropLineEnd
    rw [Text.lines, List.map_map, htrim, List.filter_map, List.map_eq_singleton_iff] at hline
    obtain ⟨only, hfilter, rfl⟩ := hline
    obtain ⟨front, back, hlines, hfront, -, hback⟩ := List.filter_eq_cons_iff.1 hfilter
    have hblank {lines : List (List Char)} (h : ∀ line ∈ lines, Text.trim line = []) :
        ∀ c ∈ lines.flatten, Text.isBlank c = true := by
      intro c hc
      obtain ⟨line, hline, hc⟩ := List.mem_flatten.1 hc
      exact Text.trim_eq_nil_iff.1 (h line hline) c hc
    have hbody : body.toList = front.flatten ++ (only ++ back.flatten) := by
      rw [← Text.flatten_physicalLines body.toList, hlines]
      simp
    rw [hbody, String.toList_ofList]
    refine Text.trim_around (hblank fun line hline => ?_) (hblank fun line hline => ?_) only
    · simpa using hfront line hline
    · simpa using List.filter_eq_nil_iff.1 hback line hline
  · cases h

namespace Quoter

variable {σ : Type}

/-- The name that a body of some kind holds. -/
def nameIn? : Site.Kind → String → Option String
  | .block, body => namedFile? body
  | .expression, body => some (String.ofList (Text.trim body.toList))

/-- **A body with only one line that is not blank names the same in both forms.** -/
theorem nameIn?_eq {body name : String} (h : namedFile? body = some name) (kind : Site.Kind) :
    nameIn? kind body = some name := by
  cases kind with
  | block => exact h
  | expression => rw [nameIn?, trim_of_namedFile? h, String.ofList_toList]

section Run

variable {readText : σ → String → Except IoError String} {inner : Quoter σ} {s : Scene σ}
  {body name text : String}

theorem run_readNamed (htext : readText s.world (quotedPath s.context.frame.filename name) = .ok text) :
    (readNamed readText name).run s = (.ok text, s) := by
  rw [readNamed, Quoting.run_get_bind]
  simp only [htext]
  rfl

/-- **A block hands on the contents of the file that it names.** -/
theorem run_fromFile_block (hname : nameIn? .block body = some name)
    (htext : readText s.world (quotedPath s.context.frame.filename name) = .ok text) (column : Nat) :
    ((fromFile readText inner).quoteBlock body column).run s = (inner.quoteBlock text column).run s := by
  have hnamed : namedFile? body = some name := hname
  simp only [fromFile, hnamed]
  rw [Quoting.run_bind, run_readNamed htext]

/-- **An expression hands on the contents of the file that it names.** -/
theorem run_fromFile_expression (hname : nameIn? .expression body = some name)
    (htext : readText s.world (quotedPath s.context.frame.filename name) = .ok text) (column : Nat) :
    ((fromFile readText inner).quoteExpression body column).run s =
      (inner.quoteExpression text column).run s := by
  have hnamed : String.ofList (Text.trim body.toList) = name := Option.some.inj hname
  simp only [fromFile, hnamed]
  rw [Quoting.run_bind, run_readNamed htext]

end Run

end Quoter

end Quasiquote
