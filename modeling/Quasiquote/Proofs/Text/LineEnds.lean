import Mathlib.Data.List.Induction
import Mathlib.Data.List.TakeWhile
import Quasiquote.Source.Lexer
import Quasiquote.Source.Position
import Quasiquote.Text.Lines

/-!
# Line ends of two characters

The same text with a carriage return before every line feed, and what of a text and its lines does
not depend on that.

## Main Definitions

* `Text.crlf` — a text with a carriage return before every line feed
* `Text.crlfLength` — what the length of a stretch becomes
* `Text.IsLine` — a text with a line feed at most at its end

## Main Statements

* `Text.physicalLines_crlf`, `Text.lines_crlf` — the lines of the two texts

## Design Notes

That a text has no carriage returns of its own is assumed only where it matters. Most functions look for
characters that break no line, and need no such assumption.
-/

namespace Quasiquote

namespace Text

/-- A text with a carriage return before every line feed. -/
def crlf (text : List Char) : List Char :=
  text.flatMap fun c => if c = '\n' then ['\r', '\n'] else [c]

@[simp] theorem crlf_nil : crlf [] = [] := rfl

@[simp] theorem crlf_feed (rest : List Char) : crlf ('\n' :: rest) = '\r' :: '\n' :: crlf rest := rfl

theorem crlf_cons {c : Char} (hc : c ≠ '\n') (rest : List Char) :
    crlf (c :: rest) = c :: crlf rest := by
  simp [crlf, hc]

@[simp] theorem crlf_append (a b : List Char) : crlf (a ++ b) = crlf a ++ crlf b := by
  simp [crlf]

theorem crlf_flatten (texts : List (List Char)) : crlf texts.flatten = (texts.map crlf).flatten := by
  induction texts with
  | nil => rfl
  | cons text texts ih => simp [ih]

/-- A text on one line has no line end to widen. -/
theorem crlf_of_notMem {text : List Char} (h : '\n' ∉ text) : crlf text = text := by
  induction text with
  | nil => rfl
  | cons c rest ih =>
    rw [List.mem_cons, not_or] at h
    rw [crlf_cons (Ne.symm h.1), ih h.2]

theorem mem_crlf_of_mem {c : Char} {text : List Char} (h : c ∈ text) : c ∈ crlf text := by
  refine List.mem_flatMap.2 ⟨c, h, ?_⟩
  split
  · next hc => simp [hc]
  · simp

@[simp] theorem crlf_eq_nil_iff {text : List Char} : crlf text = [] ↔ text = [] := by
  cases text with
  | nil => simp
  | cons c rest =>
    by_cases hc : c = '\n'
    · simp [hc]
    · simp [crlf_cons hc]

/-- On one line, the two texts are the same. -/
theorem crlf_eq_iff {text line : List Char} (h : '\n' ∉ line) : crlf text = line ↔ text = line := by
  constructor
  · rintro rfl
    exact (crlf_of_notMem fun hfeed => h (mem_crlf_of_mem hfeed)).symm
  · rintro rfl
    exact crlf_of_notMem h

/-! ### Stretches -/

/-- The length of the first `n` characters of a text when its line ends are widened. -/
def crlfLength (text : List Char) (n : Nat) : Nat := (crlf (text.take n)).length

@[simp] theorem crlfLength_zero (text : List Char) : crlfLength text 0 = 0 := rfl

theorem crlfLength_feed (rest : List Char) (n : Nat) :
    crlfLength ('\n' :: rest) (n + 1) = crlfLength rest n + 2 := rfl

theorem crlfLength_cons {c : Char} (hc : c ≠ '\n') (rest : List Char) (n : Nat) :
    crlfLength (c :: rest) (n + 1) = crlfLength rest n + 1 := by
  simp [crlfLength, crlf_cons hc]

theorem crlf_eq_append (text : List Char) (n : Nat) :
    crlf text = crlf (text.take n) ++ crlf (text.drop n) := by
  rw [← crlf_append, List.take_append_drop]

@[simp] theorem take_crlf (text : List Char) (n : Nat) :
    (crlf text).take (crlfLength text n) = crlf (text.take n) := by
  rw [crlf_eq_append text n, crlfLength, List.take_left]

@[simp] theorem drop_crlf (text : List Char) (n : Nat) :
    (crlf text).drop (crlfLength text n) = crlf (text.drop n) := by
  rw [crlf_eq_append text n, crlfLength, List.drop_left]

/-- A stretch on one line keeps its length. -/
theorem crlfLength_eq {text : List Char} {n : Nat} (hn : n ≤ text.length)
    (hfeed : '\n' ∉ text.take n) : crlfLength text n = n := by
  rw [crlfLength, crlf_of_notMem hfeed, List.length_take, Nat.min_eq_left hn]

/-- Two stretches, one behind the other. -/
theorem crlfLength_add (text : List Char) (m n : Nat) :
    crlfLength text (m + n) = crlfLength text m + crlfLength (text.drop m) n := by
  rw [crlfLength, List.take_add, crlf_append, List.length_append]
  rfl

/-! ### Runs of characters -/

section

variable {p : Char → Bool}

/-- A run of characters that break no line is the same run. -/
theorem takeWhile_crlf (hfeed : p '\n' = false) (hreturn : p '\r' = false) (text : List Char) :
    (crlf text).takeWhile p = text.takeWhile p := by
  induction text with
  | nil => rfl
  | cons c rest ih =>
    by_cases hc : c = '\n'
    · simp [hc, hfeed, hreturn]
    · rw [crlf_cons hc, List.takeWhile_cons, List.takeWhile_cons, ih]

theorem dropWhile_crlf (hfeed : p '\n' = false) (hreturn : p '\r' = false) (text : List Char) :
    (crlf text).dropWhile p = crlf (text.dropWhile p) := by
  induction text with
  | nil => rfl
  | cons c rest ih =>
    by_cases hc : c = '\n'
    · simp [hc, hfeed, hreturn]
    · rw [crlf_cons hc, List.dropWhile_cons, List.dropWhile_cons, ih]
      split
      · rfl
      · exact (crlf_cons hc rest).symm

/-- A run of characters that break no line keeps its length. -/
theorem crlfLength_takeWhile (hfeed : p '\n' = false) (text : List Char) :
    crlfLength text (text.takeWhile p).length = (text.takeWhile p).length := by
  refine crlfLength_eq (List.takeWhile_sublist p).length_le ?_
  rw [← List.prefix_iff_eq_take.1 (List.takeWhile_prefix p)]
  intro hmem
  simpa [hfeed] using List.mem_takeWhile_imp hmem

end

/-- The two texts begin with the same words on one line. -/
theorem prefix_crlf_iff {word : List Char} (hfeed : '\n' ∉ word) (hreturn : '\r' ∉ word)
    (text : List Char) : word <+: crlf text ↔ word <+: text := by
  induction word generalizing text with
  | nil => simp
  | cons d word ih =>
    rw [List.mem_cons, not_or] at hfeed hreturn
    cases text with
    | nil => simp
    | cons c rest =>
      by_cases hc : c = '\n'
      · subst hc
        simp [List.cons_prefix_cons, Ne.symm hfeed.1, Ne.symm hreturn.1]
      · rw [crlf_cons hc, List.cons_prefix_cons, List.cons_prefix_cons, ih hfeed.2 hreturn.2]

/-! ### Lines -/

/-- A text with a line feed at its end or nowhere. -/
def IsLine (line : List Char) : Prop :=
  ∃ front, '\n' ∉ front ∧ (line = front ∨ line = front ++ ['\n'])

theorem IsLine.cons {c : Char} (hc : c ≠ '\n') {line : List Char} (h : IsLine line) :
    IsLine (c :: line) := by
  obtain ⟨front, hfront, rfl | rfl⟩ := h
  · exact ⟨_, by simp [Ne.symm hc, hfront], .inl rfl⟩
  · exact ⟨c :: front, by simp [Ne.symm hc, hfront], .inr rfl⟩

theorem IsLine.append {front line : List Char} (hfront : '\n' ∉ front) (h : IsLine line) :
    IsLine (front ++ line) := by
  induction front with
  | nil => exact h
  | cons c front ih =>
    rw [List.mem_cons, not_or] at hfront
    exact (ih hfront.2).cons (Ne.symm hfront.1)

theorem isLine_feed : IsLine ['\n'] := ⟨[], by simp, .inr rfl⟩

theorem isLine_firstLine (text : List Char) : IsLine (firstLine text) := by
  induction text with
  | nil => exact ⟨[], by simp, .inl rfl⟩
  | cons c rest ih =>
    unfold firstLine
    split
    · next hc => exact hc ▸ isLine_feed
    · next hc => exact ih.cons hc

theorem isLine_of_mem_physicalLines {text line : List Char} (h : line ∈ physicalLines text) :
    IsLine line := by
  induction text generalizing line with
  | nil => simp at h
  | cons c rest ih =>
    unfold physicalLines at h
    split at h
    · next hc =>
      rcases List.mem_cons.1 h with rfl | h
      · exact hc ▸ isLine_feed
      · exact ih h
    · next hc =>
      split at h
      · obtain rfl := List.mem_singleton.1 h
        exact ⟨[c], by simp [Ne.symm hc], .inl rfl⟩
      · next first lines heq =>
        rcases List.mem_cons.1 h with rfl | h
        · exact (ih (heq ▸ List.mem_cons_self)).cons hc
        · exact ih (heq ▸ List.mem_cons_of_mem _ h)

/-- The last lines of the two texts are the same as far as they go. -/
theorem takeWhile_reverse_crlf (text : List Char) :
    (crlf text).reverse.takeWhile (· ≠ '\n') = text.reverse.takeWhile (· ≠ '\n') := by
  induction text using List.reverseRecOn with
  | nil => rfl
  | append_singleton text c ih =>
    by_cases hc : c = '\n'
    · simp [hc]
    · simpa [crlf_cons hc, hc] using ih

theorem firstLine_crlf (text : List Char) : firstLine (crlf text) = crlf (firstLine text) := by
  induction text with
  | nil => rfl
  | cons c rest ih =>
    by_cases hc : c = '\n'
    · simp [hc, firstLine]
    · rw [crlf_cons hc, firstLine, firstLine, if_neg hc, if_neg hc, crlf_cons hc, ih]

/-- **The lines of the two texts correspond,** each with its own line end. -/
theorem physicalLines_crlf (text : List Char) :
    physicalLines (crlf text) = (physicalLines text).map crlf := by
  induction text with
  | nil => rfl
  | cons c rest ih =>
    by_cases hc : c = '\n'
    · simp [hc, physicalLines, ih]
    · rw [crlf_cons hc, physicalLines, physicalLines, if_neg hc, if_neg hc, ih]
      cases physicalLines rest with
      | nil => simp [crlf_cons hc]
      | cons line lines => simp [crlf_cons hc]

/-- The ends of a line do not matter for the text in front of them. -/
theorem trimLineEnds_append {front ends : List Char} (h : ∀ c ∈ ends, c = '\n' ∨ c = '\r') :
    trimLineEnds (front ++ ends) = trimLineEnds front := by
  have hends : ∀ c ∈ ends.reverse, (c == '\n' || c == '\r') = true := by simpa using h
  rw [trimLineEnds, List.reverse_append, List.dropWhile_append_of_pos hends]
  rfl

theorem IsLine.trimLineEnds_crlf {line : List Char} (h : IsLine line) :
    trimLineEnds (crlf line) = trimLineEnds line := by
  obtain ⟨front, hfront, rfl | rfl⟩ := h
  · rw [crlf_of_notMem hfront]
  · rw [crlf_append, crlf_of_notMem hfront, trimLineEnds_append (by simp),
      trimLineEnds_append (by simp)]

/-- Without its line end, a line is the same line. -/
theorem IsLine.dropLineEnd_crlf {line : List Char} (h : IsLine line) (hreturn : '\r' ∉ line) :
    dropLineEnd (crlf line) = dropLineEnd line := by
  obtain ⟨front, hfront, rfl | rfl⟩ := h
  · rw [crlf_of_notMem hfront]
  · have hlast : front.reverse.head? ≠ some '\r' := by
      intro hlast
      obtain ⟨rest, hrest⟩ := List.head?_eq_some_iff.1 hlast
      exact hreturn (by simp [List.reverse_eq_iff.1 hrest])
    rw [crlf_append, crlf_of_notMem hfront]
    unfold dropLineEnd
    simp only [crlf_feed, crlf_nil, List.reverse_append, List.reverse_cons, List.reverse_nil,
      List.nil_append, List.cons_append]
    split
    · next heq =>
      injection heq with _ heq
      rw [heq] at hlast
      exact absurd rfl hlast
    · next heq =>
      injection heq with _ heq
      rw [heq]
    · next hnot => exact absurd rfl (hnot _)

/-- **The lines of a text do not depend on its line ends.** -/
theorem lines_crlf {text : List Char} (h : '\r' ∉ text) : lines (crlf text) = lines text := by
  rw [lines, lines, physicalLines_crlf, List.map_map]
  refine List.map_congr_left fun line hline => ?_
  refine (isLine_of_mem_physicalLines hline).dropLineEnd_crlf fun hreturn => h ?_
  rw [← flatten_physicalLines text]
  exact List.mem_flatten.2 ⟨line, hline, hreturn⟩

end Text

open Text

theorem stripMark_crlf (text : List Char) : stripMark (crlf text) = crlf (stripMark text) := by
  cases text with
  | nil => rfl
  | cons c rest =>
    by_cases hc : c = '\n'
    · subst hc
      rfl
    · rw [crlf_cons hc, stripMark, stripMark]
      split
      · rfl
      · exact (crlf_cons hc rest).symm

theorem notMem_stripMark {c : Char} {text : List Char} (h : c ∉ text) : c ∉ stripMark text := by
  cases text with
  | nil => exact h
  | cons d rest =>
    rw [stripMark]
    split
    · exact fun hmem => h (List.mem_cons_of_mem d hmem)
    · exact h

end Quasiquote
