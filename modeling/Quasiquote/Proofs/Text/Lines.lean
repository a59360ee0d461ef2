import Mathlib.Data.List.Basic
import Quasiquote.Text.Lines

/-!
# Where a text is split into lines

A line ends at a line feed, and a carriage return right before the line feed belongs to the line end. Any
other carriage return belongs to its line.

## Main Definitions

* `Text.SplitInto` — the lines of a text between its line ends

## Main Statements

* `Text.splitInto_iff` — the lines of a text are those, and no others
-/

namespace Quasiquote.Text

/-- The lines of a text, without the line feeds that end them, nor the carriage returns right before these.
There is no empty line behind the last line end. -/
inductive SplitInto : List Char → List (List Char) → Prop
  | nil : SplitInto [] []
  | last {line : List Char} : line ≠ [] → '\n' ∉ line → SplitInto line [line]
  | feed {line rest : List Char} {lines : List (List Char)} : '\n' ∉ line → line.getLast? ≠ some '\r' →
      SplitInto rest lines → SplitInto (line ++ '\n' :: rest) (line :: lines)
  | returnFeed {line rest : List Char} {lines : List (List Char)} : '\n' ∉ line →
      SplitInto rest lines → SplitInto (line ++ '\r' :: '\n' :: rest) (line :: lines)

theorem firstLine_prefix (text : List Char) : firstLine text <+: text := by
  induction text with
  | nil => exact List.prefix_refl _
  | cons c rest ih =>
    rw [firstLine]
    split
    · exact ⟨rest, rfl⟩
    · exact (List.prefix_cons_inj c).2 ih

/-- The first line of a text is the first of its lines. -/
theorem firstLine_of_physicalLines {text line : List Char} {lines : List (List Char)}
    (h : physicalLines text = line :: lines) : firstLine text = line := by
  induction text generalizing line lines with
  | nil => cases h
  | cons c text ih =>
    rw [physicalLines] at h
    rw [firstLine]
    split at h
    · next hc =>
      cases h
      rw [if_pos hc]
    · next hc =>
      rw [if_neg hc]
      split at h
      · next hnil =>
        cases h
        have hflat := flatten_physicalLines text
        rw [hnil] at hflat
        rw [← hflat]
        rfl
      · next first others heq =>
        cases h
        rw [ih heq]

theorem physicalLines_of_notMem {line : List Char} (hne : line ≠ []) (h : '\n' ∉ line) :
    physicalLines line = [line] := by
  induction line with
  | nil => exact absurd rfl hne
  | cons c rest ih =>
    rw [List.mem_cons, not_or] at h
    rw [physicalLines, if_neg (Ne.symm h.1)]
    cases rest with
    | nil => rfl
    | cons d rest => rw [ih (List.cons_ne_nil d rest) h.2]

theorem physicalLines_line {line : List Char} (h : '\n' ∉ line) (rest : List Char) :
    physicalLines (line ++ '\n' :: rest) = (line ++ ['\n']) :: physicalLines rest := by
  induction line with
  | nil => rfl
  | cons c line ih =>
    rw [List.mem_cons, not_or] at h
    rw [List.cons_append, physicalLines, if_neg (Ne.symm h.1), ih h.2]
    rfl

theorem dropLineEnd_of_notMem {line : List Char} (h : '\n' ∉ line) : dropLineEnd line = line := by
  have hlast : ∀ front, line.reverse ≠ '\n' :: front := by
    intro front hreverse
    exact h (List.mem_reverse.1 (hreverse ▸ List.mem_cons_self))
  rw [dropLineEnd]
  split
  · next hreverse => exact absurd hreverse (hlast _)
  · next hreverse => exact absurd hreverse (hlast _)
  · rfl

theorem dropLineEnd_feed {line : List Char} (h : line.getLast? ≠ some '\r') :
    dropLineEnd (line ++ ['\n']) = line := by
  rw [dropLineEnd, List.reverse_append]
  split
  · next front hreverse =>
    simp only [List.reverse_cons, List.reverse_nil, List.nil_append, List.cons_append,
      List.cons.injEq, true_and] at hreverse
    rw [List.getLast?_eq_head?_reverse, hreverse] at h
    exact absurd rfl h
  · next front _ hreverse =>
    simp only [List.reverse_cons, List.reverse_nil, List.nil_append, List.cons_append,
      List.cons.injEq, true_and] at hreverse
    rw [← hreverse, List.reverse_reverse]
  · next hnot => exact absurd rfl (hnot _)

theorem dropLineEnd_returnFeed (line : List Char) : dropLineEnd (line ++ ['\r', '\n']) = line := by
  rw [dropLineEnd, List.reverse_append]
  exact List.reverse_reverse line

theorem splitInto_lines (text : List Char) : SplitInto text (lines text) := by
  by_cases hfeed : '\n' ∈ text
  · obtain ⟨line, rest, htext, hline⟩ := List.eq_append_cons_of_mem hfeed
    have hrest : SplitInto rest (lines rest) := splitInto_lines rest
    rw [htext, lines, physicalLines_line hline, List.map_cons]
    by_cases hreturn : line.getLast? = some '\r'
    · obtain ⟨front, rfl⟩ := List.getLast?_eq_some_iff.1 hreturn
      rw [List.append_assoc, List.append_assoc, List.cons_append, List.nil_append,
        List.cons_append, List.nil_append, dropLineEnd_returnFeed]
      exact .returnFeed (fun hmem => hline (List.mem_append_left _ hmem)) hrest
    · rw [dropLineEnd_feed hreturn]
      exact .feed hline hreturn hrest
  · cases text with
    | nil => exact .nil
    | cons c rest =>
      have hne : c :: rest ≠ [] := List.cons_ne_nil c rest
      rw [lines, physicalLines_of_notMem hne hfeed, List.map_singleton, dropLineEnd_of_notMem hfeed]
      exact .last hne hfeed
termination_by text.length
decreasing_by
  rw [htext, List.length_append, List.length_cons]
  omega

theorem SplitInto.eq_lines {text : List Char} {found : List (List Char)} (h : SplitInto text found) :
    found = lines text := by
  induction h with
  | nil => rfl
  | last hne hfeed =>
    rw [lines, physicalLines_of_notMem hne hfeed, List.map_singleton, dropLineEnd_of_notMem hfeed]
  | feed hfeed hreturn _ ih =>
    rw [lines, physicalLines_line hfeed, List.map_cons, dropLineEnd_feed hreturn, ih]
    rfl
  | @returnFeed line rest later hfeed _ ih =>
    have hsplit : line ++ '\r' :: '\n' :: rest = (line ++ ['\r']) ++ '\n' :: rest := by simp
    rw [hsplit, lines, physicalLines_line (by simp [hfeed]), List.map_cons, List.append_assoc, ih]
    exact congrArg (· :: _) (dropLineEnd_returnFeed line).symm

/-- **What the lines of a text are.** -/
theorem splitInto_iff {text : List Char} {found : List (List Char)} :
    SplitInto text found ↔ found = lines text :=
  ⟨SplitInto.eq_lines, fun h => h ▸ splitInto_lines text⟩

end Quasiquote.Text
