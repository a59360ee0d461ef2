import Quasiquote.Proofs.Source.Parallel

/-!
# Taking raw text

A reader takes raw text as it stands: the lines of a block, or what stands before a closing sequence.

## Main Statements

* `Lexer.takeUntil_eq`, `Lexer.takeIndentedBlock_eq` — raw text is a stretch of the text ahead, and what
  becomes of the reader that takes it
-/

namespace Quasiquote

namespace Scan

/-- What is looked for stands where it is found. -/
theorem findLength_spec {needle text : List Char} {n : Nat} (h : findLength needle text = some n) :
    needle <+: text.drop n := by
  induction text generalizing n with
  | nil =>
    simp only [findLength, List.isEmpty_iff] at h
    split at h
    · next hneedle =>
      rw [hneedle]
      exact List.nil_prefix
    · simp at h
  | cons c rest ih =>
    unfold findLength at h
    split at h
    · next hbegins =>
      cases h
      exact List.isPrefixOf_iff_prefix.1 hbegins
    · obtain ⟨m, hm, rfl⟩ := Option.map_eq_some_iff.1 h
      exact ih hm

theorem regionLines_prefix (outer : Nat) (body : Option Nat) (lines : List (List Char)) :
    regionLines outer body lines <+: lines := by
  fun_induction regionLines outer body lines with
  | case1 => exact List.prefix_refl _
  | case2 => exact List.nil_prefix
  | case3 body line lines _ _ ih => exact (List.prefix_cons_inj line).2 ih
  | case4 => exact List.nil_prefix
  | case5 body line lines _ _ ih => exact (List.prefix_cons_inj line).2 ih

/-- A block begins where its first line does. -/
theorem flatten_regionLines_prefix (outer : Nat) (body : Option Nat) (text : List Char) :
    (regionLines outer body (Text.physicalLines text)).flatten <+: text := by
  obtain ⟨later, hlater⟩ := regionLines_prefix outer body (Text.physicalLines text)
  refine ⟨later.flatten, ?_⟩
  rw [← List.flatten_append, hlater, Text.flatten_physicalLines]

end Scan

namespace Lexer

open Scan

/-- Text that is taken up to a closing sequence lies between the reader and the sequence. -/
theorem takeUntil_eq {lx rest : Lexer} {close : String} {raw : RawText}
    (h : lx.takeUntil close = some (raw, rest)) :
    lx.Moves (raw.text.toList ++ close.toList) rest ∧
      ∃ b A p, rest = { lx.elsewhere b A p with
        depth := close.toList.foldl nest lx.depth, lineHasContent := true } := by
  unfold takeUntil at h
  obtain ⟨n, hn, heq⟩ := Option.map_eq_some_iff.1 h
  cases heq
  have hclose : (lx.advance n).ahead.take close.toList.length = close.toList :=
    (List.prefix_iff_eq_take.1 (findLength_spec hn)).symm
  have hmoves := (lx.moves_advance n).trans ((lx.advance n).moves_advance close.toList.length)
  rw [hclose] at hmoves
  refine ⟨?_, _, _, _, rfl⟩
  rw [String.toList_ofList]
  exact hmoves.congr rfl rfl

/-- A block is a stretch of the lines ahead, and is taken at the end of no text. -/
theorem takeIndentedBlock_eq {lx rest : Lexer} {raw : RawText}
    (h : lx.takeIndentedBlock = some (raw, rest)) :
    lx.Moves raw.text.toList rest ∧ raw.stop = rest.here ∧ lx.ahead ≠ [] ∧
      ∃ b A p, rest = { lx.elsewhere b A p with atLineStart := true, lineHasContent := false } := by
  unfold takeIndentedBlock at h
  have hbegins := flatten_regionLines_prefix lx.indent none lx.ahead
  split at h
  · simp at h
  · next hne =>
    cases h
    have hmoves := lx.moves_advance
      (regionLines lx.indent none (Text.physicalLines lx.ahead)).flatten.length
    rw [← List.prefix_iff_eq_take.1 hbegins] at hmoves
    refine ⟨?_, rfl, ?_, _, _, _, rfl⟩
    · rw [String.toList_ofList]
      exact hmoves.congr rfl rfl
    · intro hnil
      rw [hnil] at hne
      exact hne rfl

theorem takeUntil_start {lx rest : Lexer} {close : String} {raw : RawText}
    (h : lx.takeUntil close = some (raw, rest)) : raw.start = lx.here := by
  unfold takeUntil at h
  obtain ⟨n, -, heq⟩ := Option.map_eq_some_iff.1 h
  cases heq
  rfl

theorem takeIndentedBlock_start {lx rest : Lexer} {raw : RawText}
    (h : lx.takeIndentedBlock = some (raw, rest)) : raw.start = lx.here := by
  unfold takeIndentedBlock at h
  split at h
  · cases h
  · cases h
    rfl

/-- What is taken are the lines of the region. -/
theorem takeIndentedBlock_text {lx rest : Lexer} {raw : RawText}
    (h : lx.takeIndentedBlock = some (raw, rest)) :
    raw.text.toList = (regionLines lx.indent none (Text.physicalLines lx.ahead)).flatten := by
  unfold takeIndentedBlock at h
  split at h
  · cases h
  · cases h
    exact String.toList_ofList

/-- Text that is taken ends before the closing sequence. -/
theorem takeUntil_stop {lx rest : Lexer} {close : String} {raw : RawText}
    (h : lx.takeUntil close = some (raw, rest)) : raw.stop = lx.here.across raw.text.toList := by
  unfold takeUntil at h
  obtain ⟨n, -, heq⟩ := Option.map_eq_some_iff.1 h
  cases heq
  rw [String.toList_ofList]
  rfl

end Lexer

end Quasiquote
