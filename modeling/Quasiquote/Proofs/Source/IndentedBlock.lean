import Quasiquote.Proofs.Source.LogicalLines

/-!
# Blocks are indented regions

The lines behind a header divide into those of its block, blank lines and shallow comments that trail it,
and what follows from the first line that is as shallow as the header. A block is taken exactly if some
line before that one is deeper, and taking it leaves the open levels alone. Nothing indents the lines
behind it before the next word, except where the line that ends the region is joined to the next one right
behind its indentation and the lines so joined hold no word.

## Main Definitions

* `Scan.IsDeeper`, `Scan.EndsRegion`, `Scan.Trails` — lines that open, end and trail a block
* `Scan.HasNoBlock` — lines of which none belongs to a block
* `Scan.Region` — how the lines behind a header divide
* `Lexer.Waits` — a reader behind a block that has not come to a word

## Main Statements

* `Scan.regionLines_eq_nil_iff`, `Scan.regionLines_region` — the lines of a block
* `Lexer.Waits.next` — what a reader behind a block reads
* `Lexer.block_captured` — taking a block

## Design Notes

Lines are told by the character behind their indentation. A reader skips blanks over joined lines, so that
it can come to the end of the trailing lines, and past it, without having been at its beginning. `Waits`
therefore speaks of the text ahead and not of lines.
-/

namespace Quasiquote

namespace Text

/-! ### Lines of a part of a text -/

/-- Behind a line feed new lines begin. -/
theorem physicalLines_append {front : List Char} (h : ∀ c ∈ front.getLast?, c = '\n') (back : List Char) :
    physicalLines (front ++ back) = physicalLines front ++ physicalLines back := by
  induction front with
  | nil => rfl
  | cons c front ih =>
    cases front with
    | nil =>
      obtain rfl : c = '\n' := h c rfl
      rfl
    | cons d front =>
      have hrest := ih (by simpa using h)
      rw [List.cons_append, physicalLines, hrest]
      conv_rhs => rw [physicalLines]
      split
      · rfl
      · cases hlines : physicalLines (d :: front) with
        | nil =>
          have hflat := flatten_physicalLines (d :: front)
          rw [hlines] at hflat
          cases hflat
        | cons line lines => rfl

/-- What is known of the first line of a text: it begins the text, ends in a line feed unless it is the
only one, and the others are the lines of what is left. -/
theorem physicalLines_eq_cons {text line : List Char} {lines : List (List Char)}
    (h : physicalLines text = line :: lines) :
    line ≠ [] ∧ (lines ≠ [] → line.getLast? = some '\n') ∧ physicalLines lines.flatten = lines := by
  induction text generalizing line with
  | nil => cases h
  | cons c text ih =>
    rw [physicalLines] at h
    split at h
    · next hc =>
      obtain ⟨rfl, rfl⟩ := List.cons.inj h
      subst hc
      exact ⟨List.cons_ne_nil _ _, fun _ => rfl, by rw [flatten_physicalLines]⟩
    · split at h
      · obtain ⟨rfl, rfl⟩ := List.cons.inj h
        exact ⟨List.cons_ne_nil _ _, fun hne => absurd rfl hne, rfl⟩
      · next first others heq =>
        obtain ⟨rfl, rfl⟩ := List.cons.inj h
        obtain ⟨hne, hlast, hothers⟩ := ih heq
        obtain ⟨d, rest, rfl⟩ := List.exists_cons_of_ne_nil hne
        exact ⟨List.cons_ne_nil _ _, fun hlines => by simpa using hlast hlines, hothers⟩

/-- Lines at the end of a text are the lines of that end, and those before them end in a line feed. -/
theorem physicalLines_eq_append {text : List Char} {front back : List (List Char)}
    (h : physicalLines text = front ++ back) :
    physicalLines back.flatten = back ∧ (back ≠ [] → ∀ c ∈ front.flatten.getLast?, c = '\n') := by
  induction front generalizing text with
  | nil => exact ⟨by rw [← List.nil_append back, ← h, flatten_physicalLines], by simp⟩
  | cons line front ih =>
    obtain ⟨-, hlast, hlines⟩ := physicalLines_eq_cons h
    obtain ⟨hback, hfront⟩ := ih hlines
    refine ⟨hback, fun hne c hc => ?_⟩
    rw [List.flatten_cons, List.getLast?_append, hlast (by simp [hne]), Option.mem_def] at hc
    cases hrest : front.flatten.getLast? with
    | none => simpa [hrest, eq_comm] using hc
    | some d =>
      rw [hrest] at hc
      exact hfront hne c (hrest.trans hc)

end Text

namespace Scan

variable {outer : Nat} {line : List Char} {lines : List (List Char)}

/-- What stands behind the indentation of a text, and how wide that is, its first line tells. -/
theorem indentation_of_line {text : List Char} (h : Text.physicalLines text = line :: lines) :
    afterIndent line = afterIndent text ∧ indentWidth line = indentWidth text := by
  suffices hgap : line.takeWhile isGap = text.takeWhile isGap ∧
      (line.dropWhile isGap).head? = (text.dropWhile isGap).head? from
    ⟨hgap.2, by rw [indentWidth, hgap.1, indentWidth]⟩
  induction text generalizing line lines with
  | nil => cases h
  | cons c text ih =>
    rw [Text.physicalLines] at h
    split at h
    · next hc =>
      obtain ⟨rfl, -⟩ := List.cons.inj h
      subst hc
      exact ⟨rfl, rfl⟩
    · split at h
      · next hnil =>
        obtain ⟨rfl, -⟩ := List.cons.inj h
        have hflat := Text.flatten_physicalLines text
        rw [hnil] at hflat
        rw [← hflat]
        exact ⟨rfl, rfl⟩
      · next first others heq =>
        obtain ⟨rfl, -⟩ := List.cons.inj h
        obtain ⟨htake, hdrop⟩ := ih heq
        rw [List.takeWhile_cons, List.takeWhile_cons, List.dropWhile_cons, List.dropWhile_cons, htake]
        split
        · exact ⟨rfl, hdrop⟩
        · exact ⟨rfl, rfl⟩

/-! ### The lines of a block -/

/-- A line that is not blank and deeper than the header. -/
def IsDeeper (outer : Nat) (line : List Char) : Prop :=
  isBlankLine line = false ∧ outer < indentWidth line

/-- **A line that ends the region behind a header:** neither blank nor a comment, and not deeper than the
header. -/
def EndsRegion (outer : Nat) (line : List Char) : Prop :=
  ¬ IsSkipped line ∧ indentWidth line ≤ outer

/-- **A line that can trail a block** whose first line is indented by `width`: blank, or a comment that is
shallower. -/
def Trails (width : Nat) (line : List Char) : Prop :=
  isBlankLine line = true ∨ (isCommentLine line = true ∧ indentWidth line < width)

/-- **None of these lines belongs to a block:** before every deeper one, the region ends. -/
def HasNoBlock (outer : Nat) (lines : List (List Char)) : Prop :=
  ∀ front line back, lines = front ++ line :: back → IsDeeper outer line →
    ∃ before ∈ front, EndsRegion outer before

/-- **How the lines behind a header divide:** those of the block, those that trail it, and those from the
end of the region on. `first` is the block's first line that is neither blank nor shallow. -/
structure Region (outer : Nat) (first : List Char) (block trailing later : List (List Char)) : Prop where
  opens : ∃ front back, block = front ++ first :: back ∧ IsDeeper outer first ∧
    ∀ line ∈ front, ¬ IsDeeper outer line
  deeper : ∀ line ∈ block, ¬ IsSkipped line → outer < indentWidth line
  last : ∀ line ∈ block.getLast?, ¬ Trails (indentWidth first) line
  trails : ∀ line ∈ trailing, Trails (indentWidth first) line
  ends : ∀ line ∈ later.head?, EndsRegion outer line

theorem Trails.isSkipped {width : Nat} (h : Trails width line) : IsSkipped line := h.imp id And.left

theorem isTentative_none_iff :
    isTentative outer none line = true ↔ ¬ IsDeeper outer line ∧ IsSkipped line := by
  simp only [isTentative, IsDeeper, IsSkipped, Option.any_none, Bool.or_false, Bool.or_eq_true,
    Bool.and_eq_true, decide_eq_true_eq]
  cases isBlankLine line with
  | true => simp
  | false => simp [and_comm]

theorem isTentative_some_iff {width : Nat} (hwidth : outer < width) :
    isTentative outer (some width) line = true ↔ Trails width line := by
  simp only [isTentative, Trails, Option.any_some, Bool.or_eq_true, Bool.and_eq_true, decide_eq_true_eq]
  refine or_congr_right (and_congr_right fun _ => ?_)
  omega

theorem EndsRegion.not_isDeeper (h : EndsRegion outer line) : ¬ IsDeeper outer line := fun hdeeper =>
  Nat.not_lt.2 h.2 hdeeper.2

theorem hasNoBlock_cons_iff :
    HasNoBlock outer (line :: lines) ↔
      EndsRegion outer line ∨ (¬ IsDeeper outer line ∧ HasNoBlock outer lines) := by
  constructor
  · intro hnone
    by_cases hends : EndsRegion outer line
    · exact .inl hends
    refine .inr ⟨fun hdeeper => ?_, fun front other back heq hdeeper => ?_⟩
    · obtain ⟨before, hmem, -⟩ := hnone [] line lines rfl hdeeper
      cases hmem
    · obtain ⟨before, hmem, hbefore⟩ := hnone (line :: front) other back (by rw [heq]; rfl) hdeeper
      rcases List.mem_cons.1 hmem with rfl | hmem
      · exact absurd hbefore hends
      · exact ⟨before, hmem, hbefore⟩
  · rintro hline (_ | ⟨d, front⟩) other back heq hdeeper
    · obtain ⟨rfl, -⟩ := List.cons.inj heq
      rcases hline with hends | ⟨hshallow, -⟩
      · exact absurd hdeeper hends.not_isDeeper
      · exact absurd hdeeper hshallow
    · obtain ⟨rfl, hlines⟩ := List.cons.inj heq
      rcases hline with hends | ⟨-, hnone⟩
      · exact ⟨line, List.mem_cons_self, hends⟩
      · obtain ⟨before, hmem, hbefore⟩ := hnone front other back hlines hdeeper
        exact ⟨before, List.mem_cons_of_mem _ hmem, hbefore⟩

/-- **The ways in which a line can stand behind a header** that has no block yet: it is passed over, ends
the region, or opens the block. -/
theorem line_cases (outer : Nat) (line : List Char) :
    (isTentative outer none line = true ∧ ¬ IsDeeper outer line ∧ IsSkipped line) ∨
    (isTentative outer none line = false ∧ EndsRegion outer line) ∨
    (isTentative outer none line = false ∧ IsDeeper outer line) := by
  cases htentative : isTentative outer none line with
  | true => exact .inl ⟨rfl, isTentative_none_iff.1 htentative⟩
  | false =>
    by_cases hdeeper : IsDeeper outer line
    · exact .inr (.inr ⟨rfl, hdeeper⟩)
    have hmeasured : ¬ IsSkipped line := fun hskipped => by
      rw [isTentative_none_iff.2 ⟨hdeeper, hskipped⟩] at htentative
      cases htentative
    refine .inr (.inl ⟨rfl, hmeasured, ?_⟩)
    have hblank : isBlankLine line = false := by simpa using fun hblank => hmeasured (.inl hblank)
    exact Nat.not_lt.1 fun hless => hdeeper ⟨hblank, hless⟩

theorem regionLines_of_tentative {body : Option Nat} (h : isTentative outer body line = true) :
    regionLines outer body (line :: lines) =
      if regionLines outer body lines = [] then [] else line :: regionLines outer body lines := by
  rw [regionLines, if_pos h]
  cases regionLines outer body lines <;> simp

theorem regionLines_of_firm {body : Option Nat} (h : isTentative outer body line = false) :
    regionLines outer body (line :: lines) =
      if indentWidth line ≤ outer then []
      else line :: regionLines outer (some (body.getD (indentWidth line))) lines := by
  rw [regionLines, if_neg (by simp [h])]

/-- **A block is empty exactly if no line before the end of the region is deeper.** -/
theorem regionLines_eq_nil_iff : regionLines outer none lines = [] ↔ HasNoBlock outer lines := by
  induction lines with
  | nil => simp [regionLines, HasNoBlock]
  | cons line lines ih =>
    rw [hasNoBlock_cons_iff]
    rcases line_cases outer line with ⟨htentative, hshallow, hskipped⟩ | ⟨hfirm, hends⟩ |
      ⟨hfirm, hdeeper⟩
    · have hnot : ¬ EndsRegion outer line := fun hends => hends.1 hskipped
      rw [regionLines_of_tentative htentative, ← ih]
      simp [hnot, hshallow]
    · rw [regionLines_of_firm hfirm, if_pos hends.2]
      simp [hends]
    · have hnot : ¬ EndsRegion outer line := fun hends => hends.not_isDeeper hdeeper
      rw [regionLines_of_firm hfirm, if_neg (Nat.not_le.2 hdeeper.2)]
      simp [hnot, hdeeper]

theorem forall_getLast?_cons {P : List Char → Prop} (hline : P line)
    (hlines : ∀ last ∈ lines.getLast?, P last) : ∀ last ∈ (line :: lines).getLast?, P last := by
  intro last hlast
  rw [List.getLast?_cons, Option.mem_def, Option.some.injEq] at hlast
  cases hrest : lines.getLast? with
  | none =>
    rw [hrest] at hlast
    exact hlast ▸ hline
  | some d =>
    rw [hrest] at hlast
    exact hlines last (hrest.trans (congrArg some hlast))

/-- Behind the first line of a block, the lines divide by its width. -/
theorem regionLines_divides {width : Nat} (hwidth : outer < width) (lines : List (List Char)) :
    ∃ trailing later, lines = regionLines outer (some width) lines ++ (trailing ++ later) ∧
      (∀ line ∈ regionLines outer (some width) lines, ¬ IsSkipped line → outer < indentWidth line) ∧
      (∀ line ∈ (regionLines outer (some width) lines).getLast?, ¬ Trails width line) ∧
      (∀ line ∈ trailing, Trails width line) ∧ ∀ line ∈ later.head?, EndsRegion outer line := by
  induction lines with
  | nil => exact ⟨[], [], rfl, by simp [regionLines], by simp [regionLines], by simp, by simp⟩
  | cons line lines ih =>
    obtain ⟨trailing, later, hlines, hdeeper, hlast, htrails, hends⟩ := ih
    cases htentative : isTentative outer (some width) line with
    | true =>
      have hline : Trails width line := (isTentative_some_iff hwidth).1 htentative
      rw [regionLines_of_tentative htentative]
      split
      · next hnil =>
        -- no line of the block follows, so that this one trails it
        rw [hnil, List.nil_append] at hlines
        exact ⟨line :: trailing, later, by rw [hlines]; rfl, by simp, by simp,
          List.forall_mem_cons.2 ⟨hline, htrails⟩, hends⟩
      · next hne =>
        refine ⟨trailing, later, by rw [List.cons_append, ← hlines],
          List.forall_mem_cons.2 ⟨fun hmeasured => absurd hline.isSkipped hmeasured, hdeeper⟩, ?_, htrails,
          hends⟩
        rwa [List.getLast?_cons_of_ne_nil hne]
    | false =>
      have hline : ¬ Trails width line := (isTentative_some_iff hwidth).not.1 (by simp [htentative])
      rw [regionLines_of_firm htentative]
      split
      · next hshallow =>
        refine ⟨[], line :: lines, rfl, by simp, by simp, by simp, ?_⟩
        rintro _ ⟨⟩
        refine ⟨?_, hshallow⟩
        rintro (hblank | hcomment)
        · exact hline (.inl hblank)
        · exact hline (.inr ⟨hcomment, Nat.lt_of_le_of_lt hshallow hwidth⟩)
      · next hdeep =>
        exact ⟨trailing, later, by rw [Option.getD_some, List.cons_append, ← hlines],
          List.forall_mem_cons.2 ⟨fun _ => Nat.lt_of_not_le hdeep, hdeeper⟩,
          forall_getLast?_cons hline hlast, htrails, hends⟩

/-- **The lines of a block are an indented region.** -/
theorem regionLines_region (h : ¬ HasNoBlock outer lines) :
    ∃ first trailing later, lines = regionLines outer none lines ++ (trailing ++ later) ∧
      Region outer first (regionLines outer none lines) trailing later := by
  induction lines with
  | nil => exact absurd (regionLines_eq_nil_iff.1 rfl) h
  | cons line lines ih =>
    rw [hasNoBlock_cons_iff, not_or] at h
    obtain ⟨hnot, hnone⟩ := h
    rcases line_cases outer line with ⟨htentative, hshallow, hskipped⟩ | ⟨-, hends⟩ | ⟨hfirm, hdeeper⟩
    · have hblock : ¬ HasNoBlock outer lines := fun hnil => hnone ⟨hshallow, hnil⟩
      obtain ⟨first, trailing, later, hlines, hregion⟩ := ih hblock
      have hne : regionLines outer none lines ≠ [] := fun hnil => hblock (regionLines_eq_nil_iff.1 hnil)
      obtain ⟨front, back, hopens, hfirst, hfront⟩ := hregion.opens
      rw [regionLines_of_tentative htentative, if_neg hne]
      refine ⟨first, trailing, later, by rw [List.cons_append, ← hlines], ?_⟩
      exact
        { hregion with
          opens := ⟨line :: front, back, by rw [hopens]; rfl, hfirst,
            List.forall_mem_cons.2 ⟨hshallow, hfront⟩⟩
          deeper := List.forall_mem_cons.2 ⟨fun hmeasured => absurd hskipped hmeasured, hregion.deeper⟩
          last := by rw [List.getLast?_cons_of_ne_nil hne]; exact hregion.last }
    · exact absurd hends hnot
    · obtain ⟨trailing, later, hlines, hdeep, hlast, htrails, hends⟩ :=
        regionLines_divides hdeeper.2 lines
      rw [regionLines_of_firm hfirm, if_neg (Nat.not_le.2 hdeeper.2), Option.getD_none]
      refine ⟨line, trailing, later, by rw [List.cons_append, ← hlines], ?_⟩
      have hline : ¬ Trails (indentWidth line) line := by
        rintro (hblank | ⟨-, hless⟩)
        · rw [hdeeper.1] at hblank
          cases hblank
        · exact Nat.lt_irrefl _ hless
      exact ⟨⟨[], _, rfl, hdeeper, by simp⟩, List.forall_mem_cons.2 ⟨fun _ => hdeeper.2, hdeep⟩,
        forall_getLast?_cons hline hlast, htrails, hends⟩

/-! ### Passing over trailing lines -/

/-- Whole lines in front of a text: they end in a line feed unless the text is empty. -/
def WholeLines (lines text : List Char) : Prop := text ≠ [] → ∀ c ∈ lines.getLast?, c = '\n'

theorem WholeLines.of_suffix {lines back text : List Char} (h : WholeLines lines text)
    (hback : back <:+ lines) : WholeLines back text := by
  obtain ⟨front, rfl⟩ := hback
  intro hne c hc
  exact h hne c (by rw [List.getLast?_append, Option.mem_def.1 hc]; rfl)

theorem WholeLines.tail {c : Char} {lines text : List Char} (h : WholeLines (c :: lines) text) :
    WholeLines lines text := h.of_suffix (List.suffix_cons c lines)

/-- **The text of the lines that trail a block,** in front of the text that ends their region: indentation
is measured on none of them. -/
structure Passes (outer : Nat) (trailing later : List Char) : Prop where
  whole : WholeLines trailing later
  skips : ∀ front back, trailing = front ++ back → (∀ c ∈ front.getLast?, c = '\n') → back ≠ [] →
    IsSkipped (back ++ later)
  ends : later ≠ [] → EndsRegion outer later

theorem isSkipped_of_line {text : List Char} (h : Text.physicalLines text = line :: lines) :
    IsSkipped line ↔ IsSkipped text := by
  rw [IsSkipped, IsSkipped, isBlankLine, isCommentLine, isBlankLine, isCommentLine,
    (indentation_of_line h).1]

/-- Lines that divide as those behind a header do are passed over as a text. -/
theorem Region.passes {first : List Char} {block trailing later : List (List Char)} {text : List Char}
    (h : Region outer first block trailing later)
    (hlines : Text.physicalLines text = trailing ++ later) :
    Passes outer trailing.flatten later.flatten := by
  obtain ⟨hlater, hwhole⟩ := Text.physicalLines_eq_append hlines
  have hne (hne : later.flatten ≠ []) : later ≠ [] := fun hnil => hne (by rw [hnil]; rfl)
  refine ⟨fun hnil => hwhole (hne hnil), fun front back hsplit hfront hback => ?_, fun hnil => ?_⟩
  · have htext : text = front ++ (back ++ later.flatten) := by
      rw [← Text.flatten_physicalLines text, hlines, List.flatten_append, hsplit, List.append_assoc]
    rw [htext, Text.physicalLines_append hfront] at hlines
    rcases List.append_eq_append_iff.1 hlines with ⟨lines, htrailing, hrest⟩ | ⟨lines, hover, -⟩
    · cases lines with
      | nil =>
        rw [htrailing, List.append_nil, Text.flatten_physicalLines] at hsplit
        exact absurd (List.self_eq_append_right.1 hsplit) hback
      | cons line lines =>
        have hline : line ∈ trailing := by simp [htrailing]
        exact (isSkipped_of_line hrest).1 (h.trails line hline).isSkipped
    · -- the lines of the front would reach beyond those that trail
      have hflat := congrArg List.flatten hover
      rw [Text.flatten_physicalLines, List.flatten_append, hsplit, List.append_assoc] at hflat
      exact absurd (List.append_eq_nil_iff.1 (List.self_eq_append_right.1 hflat)).1 hback
  · obtain ⟨line, lines, rfl⟩ := List.exists_cons_of_ne_nil (hne hnil)
    obtain ⟨hmeasured, hwidth⟩ := h.ends line rfl
    exact ⟨(isSkipped_of_line hlater).not.1 hmeasured, (indentation_of_line hlater).2 ▸ hwidth⟩

variable {trailing later : List Char}

/-- Blanks in lines in front of a text end within these lines, or go on as those of the text. -/
theorem blankLength_append (h : WholeLines trailing later) :
    blankLength (trailing ++ later) < trailing.length ∨
      blankLength (trailing ++ later) = trailing.length + blankLength later := by
  -- the text does not begin within a joined line
  have hjoined {c d : Char} {text : List Char} (hwhole : WholeLines [c] later) (htext : later = d :: text) :
      c = '\n' := hwhole (by simp [htext]) c rfl
  generalize htext : trailing ++ later = text
  fun_induction blankLength text generalizing trailing with
  | case1 text ih =>
    rcases trailing with _ | ⟨c, _ | ⟨d, back⟩⟩
    · right
      obtain rfl : later = '\\' :: '\n' :: text := htext
      simp [blankLength]
    · obtain ⟨rfl, hlater⟩ := List.cons.inj htext
      exact absurd (hjoined h hlater) (by decide)
    · obtain ⟨rfl, hback⟩ := List.cons.inj htext
      have := ih h.tail.tail (List.cons.inj hback).2
      simp only [List.length_cons]
      omega
  | case2 text ih =>
    rcases trailing with _ | ⟨c, _ | ⟨d, _ | ⟨e, back⟩⟩⟩
    · right
      obtain rfl : later = '\\' :: '\r' :: '\n' :: text := htext
      simp [blankLength]
    · obtain ⟨rfl, hlater⟩ := List.cons.inj htext
      exact absurd (hjoined h hlater) (by decide)
    · obtain ⟨rfl, hback⟩ := List.cons.inj htext
      obtain ⟨rfl, hlater⟩ := List.cons.inj hback
      exact absurd (hjoined h.tail hlater) (by decide)
    · obtain ⟨rfl, hrest⟩ := List.cons.inj htext
      obtain ⟨rfl, hback⟩ := List.cons.inj hrest
      have := ih h.tail.tail.tail (List.cons.inj hback).2
      simp only [List.length_cons]
      omega
  | case4 c text hjoin hcrlf hreturn hblank ih =>
    rcases trailing with _ | ⟨d, back⟩
    · right
      obtain rfl : later = c :: text := htext
      rw [blankLength, if_pos hblank]
      · simp
      all_goals assumption
    · have := ih h.tail (List.cons.inj htext).2
      simp only [List.length_cons]
      omega
  | case3 text =>
    rcases trailing with _ | ⟨c, back⟩
    · right
      obtain rfl : later = '\r' :: '\n' :: text := htext
      simp [blankLength]
    · exact .inl (Nat.succ_pos _)
  | case5 c text hjoin hcrlf hreturn hblank =>
    rcases trailing with _ | ⟨d, back⟩
    · right
      obtain rfl : later = c :: text := htext
      rw [blankLength, if_neg hblank]
      · rfl
      all_goals assumption
    · exact .inl (Nat.succ_pos _)
  | case6 =>
    obtain ⟨rfl, rfl⟩ := List.append_eq_nil_iff.1 htext
    exact .inr rfl

/-- What stands behind the blanks is in the lines in front of a text, or behind the blanks of that text. -/
theorem drop_blanks_append (h : WholeLines trailing later) :
    (∃ back, back ≠ [] ∧ back <:+ trailing ∧
      (trailing ++ later).drop (blankLength (trailing ++ later)) = back ++ later) ∨
    (trailing ++ later).drop (blankLength (trailing ++ later)) = later.drop (blankLength later) := by
  rcases blankLength_append h with hless | heq
  · refine .inl ⟨trailing.drop (blankLength (trailing ++ later)), ?_, List.drop_suffix _ _, ?_⟩
    · simpa using hless
    · rw [List.drop_append_of_le_length (Nat.le_of_lt hless)]
  · exact .inr (by rw [heq, ← List.drop_drop, List.drop_left])

/-- A line break in whole lines lies within them. -/
theorem drop_break_append {back : List Char} (h : WholeLines back later) (hne : back ≠ [])
    (hbreak : 0 < breakLength (back ++ later)) :
    ∃ front rest, back = front ++ rest ∧ front.getLast? = some '\n' ∧
      (back ++ later).drop (breakLength (back ++ later)) = rest ++ later := by
  rcases back with _ | ⟨c, back⟩
  · exact absurd rfl hne
  unfold breakLength at hbreak ⊢
  split at hbreak
  · next heq =>
    obtain ⟨rfl, -⟩ := List.cons.inj heq
    exact ⟨['\n'], back, rfl, rfl, rfl⟩
  · next heq =>
    obtain ⟨rfl, hrest⟩ := List.cons.inj heq
    rcases back with _ | ⟨d, back⟩
    · obtain rfl : later = _ := hrest
      exact absurd (h (List.cons_ne_nil _ _) '\r' rfl) (by decide)
    · obtain ⟨rfl, -⟩ := List.cons.inj hrest
      exact ⟨['\r', '\n'], back, rfl, rfl, rfl⟩
  · exact absurd hbreak (Nat.lt_irrefl 0)

/-- A comment in whole lines ends within them. -/
theorem dropWhile_comment_append {back text : List Char} (h : WholeLines back later) (hne : back ≠ [])
    (htext : back ++ later = '#' :: text) :
    ∃ rest, rest <:+ back ∧ text.dropWhile (fun c => !endsLine c) = rest ++ later := by
  rcases back with _ | ⟨c, back⟩
  · exact absurd rfl hne
  obtain ⟨rfl, rfl⟩ := List.cons.inj htext
  refine ⟨back.dropWhile fun c => !endsLine c, (List.dropWhile_suffix _).trans (List.suffix_cons _ _), ?_⟩
  show (back ++ later).dropWhile _ = _
  rw [List.dropWhile_append]
  split
  · next hempty =>
    -- a comment to the end of its lines is one to the end of the text
    have hall := List.dropWhile_eq_nil_iff.1 (List.isEmpty_iff.1 hempty)
    suffices hlater : later = [] by simp [List.isEmpty_iff.1 hempty, hlater]
    by_contra hlater
    rcases List.eq_nil_or_concat' back with rfl | ⟨front, last, rfl⟩
    · exact absurd (h hlater '#' rfl) (by decide)
    · obtain rfl : last = '\n' := h hlater last (by simp [List.getLast?_cons])
      exact absurd (hall '\n' (by simp)) (by decide)
  · rfl

end Scan

theorem byteLength_le_of_suffix {back text : List Char} (h : back <:+ text) :
    byteLength back ≤ byteLength text := by
  obtain ⟨front, rfl⟩ := h
  rw [byteLength_append]
  exact Nat.le_add_left _ _

namespace Lexer

open Scan

variable {lx rest : Lexer} {t : Token} {outer : Nat} {trailing later : List Char}

/-! ### The reader behind a block -/

/-- The bytes up to the end of the text are the same for all readers of a text. -/
theorem Moves.total {text : List Char} (h : lx.Moves text rest) :
    rest.here.offset + byteLength rest.ahead = lx.here.offset + byteLength lx.ahead := by
  rw [h.here, h.ahead, Position.across_offset, byteLength_append, Nat.add_assoc]

/-- Outside brackets, only a word opens one. -/
theorem depth_of_not_word (hnext : lx.next = (.ok t, rest)) (hword : t.kind.isWord = false)
    (hdepth : lx.depth = 0) : rest.depth = 0 := by
  cases shifts_next hnext with
  | due _ _ _ hsame => exact hsame.trans hdepth
  | deeper _ _ _ _ _ _ hzero => exact hzero
  | shallower _ _ _ _ _ _ _ hzero => exact hzero
  | ended _ _ _ _ _ _ hsame => exact hsame.trans hdepth
  | level _ _ _ _ _ hnest =>
    have hoperator : t.kind ≠ .operator := fun hk => by simp [Token.Kind.isWord, hk] at hword
    rw [hnest, Token.nest, if_neg hoperator, hdepth]

/-- Behind the end marker a reader stays at the end of the text. -/
theorem Idle.next_endMarker (h : lx.Idle) (hnext : lx.next = (.ok t, rest)) (hk : t.kind = .endMarker) :
    rest.Idle ∧ rest.ahead = [] := by
  obtain ⟨-, hline⟩ := lineToken_of_next hnext (by simp [hk])
  rcases lineToken_kinds hline with ⟨-, hnil, hend⟩ | ⟨hkind, -⟩ | ⟨hkind, -⟩ | ⟨hkind, -⟩
  · rcases endOfSource_cases hend with ⟨-, rfl, -⟩ | ⟨-, -, rfl, -⟩ | ⟨-, -, -, rfl⟩
    · cases hk
    · cases hk
    · exact ⟨⟨rfl, h.empty⟩, hnil⟩
  · simp [hk] at hkind
  · simp [hk] at hkind
  · simp [hk, Token.Kind.isWord] at hkind

/-- Behind the end of a logical line, a reader at the beginning of a line is outside brackets. -/
theorem atLine_of_newline (hnext : lx.next = (.ok t, rest)) (hk : t.kind = .newline)
    (hstart : rest.atLineStart = true) : rest.AtLine := by
  obtain ⟨⟨hsettled, -⟩, hline⟩ := lineToken_of_next hnext (by simp [hk])
  rcases lineToken_kinds hline with ⟨-, -, hend⟩ | ⟨hkind, -⟩ | ⟨-, -, hbreak⟩ | ⟨hkind, -⟩
  · rcases endOfSource_cases hend with ⟨-, -, rfl⟩ | ⟨-, -, rfl, -⟩ | ⟨-, -, rfl, -⟩
    · cases hstart
    · cases hk
    · cases hk
  · simp [hk] at hkind
  · cases hbreak
    have hlogical : (lx.onLine.pastBlanks.depth == 0 && lx.onLine.pastBlanks.lineHasContent) = true := by
      by_contra hnot
      simp [token, hnot] at hk
    refine ⟨rfl, ?_, ?_, hsettled⟩
    · simp [hlogical]
    · simpa using (Bool.and_eq_true_iff.1 hlogical).1
  · simp [hk, Token.Kind.isWord] at hkind

/-- An idle reader reads no indent. -/
theorem Idle.next_ne_indent (h : lx.Idle) (hnext : lx.next = (.ok t, rest)) : t.kind ≠ .indent := by
  cases h.next hnext with
  | due hk => simp [hk]
  | closes hk => simp [hk]
  | ends hk => simp [hk]
  | comment hk => simp [hk]
  | lineBreak hk => simp [hk]
  | word hk =>
    rintro heq
    simp [heq, Token.Kind.isWord] at hk

/-- A reader that has come to the line that ends the region behind a block, in front of its word, or to the
end of the text. -/
inductive Settled (later : List Char) (lx : Lexer) : Prop
  /-- Behind the indentation of a line that is joined to the next one. -/
  | joined : lx.Idle → JoinsIndent later → byteLength lx.pastBlanks.ahead ≤ byteLength later →
      Settled later lx
  /-- In front of a word. -/
  | beforeWord {c : Char} {text : List Char} : lx.Idle → lx.pastBlanks.ahead = c :: text → c ≠ '#' →
      endsLine c = false → Settled later lx
  | atEnd : lx.Idle → lx.pastBlanks.ahead = [] → Settled later lx

theorem Settled.idle (h : lx.Settled later) : lx.Idle := by
  cases h <;> assumption

theorem Settled.of_ahead_nil (h : lx.Idle) (hnil : lx.ahead = []) : lx.Settled later :=
  .atEnd h (by simp [pastBlanks, hnil])

/-- What is behind the blanks is a matter of what is ahead. -/
theorem pastBlanks_congr (h : rest.ahead = lx.ahead) : rest.pastBlanks.ahead = lx.pastBlanks.ahead := by
  show rest.ahead.drop (blankLength rest.ahead) = lx.ahead.drop (blankLength lx.ahead)
  rw [h]

/-- Blanks only bring a reader closer to the end. -/
theorem byteLength_pastBlanks_le (lx : Lexer) : byteLength lx.pastBlanks.ahead ≤ byteLength lx.ahead :=
  byteLength_le_of_suffix (List.drop_suffix _ _)

/-- **A reader that has settled** stays so up to the next word, or the end of the joined lines. -/
theorem Settled.next (h : lx.Settled later) (hnext : lx.next = (.ok t, rest))
    (hword : t.kind.isWord = false)
    (hbreak : JoinsIndent later → t.kind = .lineBreak → byteLength later < byteLength lx.pastBlanks.ahead) :
    rest.Settled later := by
  cases h with
  | joined hidle hjoins hlength =>
    cases hidle.next hnext with
    | due _ hrest hahead => exact .joined hrest hjoins (by rwa [pastBlanks_congr hahead])
    | closes _ hrest _ hnil => exact .of_ahead_nil hrest hnil
    | ends hk =>
      obtain ⟨hrest, hnil⟩ := hidle.next_endMarker hnext hk
      exact .of_ahead_nil hrest hnil
    | @comment text _ hrest hcons hahead =>
      refine .joined hrest hjoins ?_
      have hsuffix : rest.ahead <:+ lx.pastBlanks.ahead := by
        rw [hahead, hcons]
        exact (List.dropWhile_suffix _).trans (List.suffix_cons _ _)
      have hblanks := rest.byteLength_pastBlanks_le
      have hcomment := byteLength_le_of_suffix hsuffix
      omega
    | lineBreak hk => exact absurd (hbreak hjoins hk) (Nat.not_lt.2 hlength)
    | word hk => simp [hword] at hk
  | beforeWord hidle hcons hcomment hc =>
    rcases hidle.next_before_word hcons hcomment hc hnext with ⟨-, hrest, hahead⟩ | ⟨hk, -⟩
    · exact .beforeWord hrest hahead hcomment hc
    · simp [hword] at hk
  | atEnd hidle hnil =>
    cases hidle.next hnext with
    | due _ hrest hahead => exact .atEnd hrest (by rwa [pastBlanks_congr hahead])
    | closes _ hrest _ hahead => exact .of_ahead_nil hrest hahead
    | ends hk =>
      obtain ⟨hrest, hahead⟩ := hidle.next_endMarker hnext hk
      exact .of_ahead_nil hrest hahead
    | comment _ _ hcons => simp [hnil] at hcons
    | lineBreak _ hpos => simp [hnil, breakLength] at hpos
    | word _ hcons => simp [hnil] at hcons

/-- Behind the indentation of the line that ends the region, a reader has settled. -/
theorem Idle.settled (h : lx.Idle) (gap : List Char) {ahead : List Char}
    (hahead : lx.pastBlanks.ahead = ahead.drop (blankLength ahead)) (hlater : later = gap ++ ahead)
    (hgap : ∀ c ∈ gap, isGap c = true) (hends : later ≠ [] → EndsRegion outer later) :
    lx.Settled later := by
  have hlength : byteLength lx.pastBlanks.ahead ≤ byteLength later := by
    rw [hahead, hlater]
    exact byteLength_le_of_suffix ((List.drop_suffix _ _).trans (List.suffix_append gap ahead))
  by_cases hjoins : JoinsIndent later
  · exact .joined h hjoins hlength
  by_cases hnil : later = []
  · refine .atEnd h ?_
    obtain ⟨-, rfl⟩ := List.append_eq_nil_iff.1 (hlater.symm.trans hnil)
    simpa using hahead
  · have hmeasured := (hends hnil).1
    rw [hlater] at hmeasured hjoins
    obtain ⟨c, text, hcons, hcomment, hc⟩ := drop_blanks_of_measured hgap hmeasured hjoins
    exact .beforeWord h (hahead.trans hcons) hcomment hc

/-- **A reader behind a block** that has not come to a word: it passes over the lines that trail the block,
or has come to the line that ends the region. -/
inductive Waits (outer : Nat) (trailing later : List Char) (lx : Lexer) : Prop
  /-- At the beginning of a line. -/
  | atLine {front back : List Char} : lx.AtLine → lx.indent = outer → trailing = front ++ back →
      (∀ c ∈ front.getLast?, c = '\n') → lx.ahead = back ++ later → Waits outer trailing later lx
  /-- Within a line that trails the block. -/
  | inLine {back : List Char} : lx.Idle → lx.depth = 0 → lx.indent = outer → back <:+ trailing →
      lx.ahead = back ++ later → Waits outer trailing later lx
  | settled : lx.Settled later → Waits outer trailing later lx

/-- A line break stands behind the blanks, and the reader goes on behind it. -/
theorem next_lineBreak (hnext : lx.next = (.ok t, rest)) (hk : t.kind = .lineBreak) :
    t.start = lx.pastBlanks.here ∧
      rest.ahead = lx.pastBlanks.ahead.drop (breakLength lx.pastBlanks.ahead) := by
  obtain ⟨-, hline⟩ := lineToken_of_next hnext (by simp [hk])
  rcases lineToken_kinds hline with ⟨hkind, -⟩ | ⟨hkind, -⟩ | ⟨-, -, hbreak⟩ | ⟨hkind, -⟩
  · simp [hk] at hkind
  · simp [hk] at hkind
  · cases hbreak
    exact ⟨rfl, rfl⟩
  · simp [hk, Token.Kind.isWord] at hkind

/-- Within the lines that trail a block, a reader comes to the next of them, or settles. -/
theorem Idle.next_waits {back : List Char} (h : lx.Idle) (hpasses : Passes outer trailing later)
    (hdepth : lx.depth = 0) (hindent : lx.indent = outer) (hback : back <:+ trailing)
    (hahead : lx.ahead = back ++ later) (hnext : lx.next = (.ok t, rest)) (hword : t.kind.isWord = false)
    (hbreak : JoinsIndent later → t.kind = .lineBreak → byteLength later < byteLength lx.pastBlanks.ahead) :
    rest.Waits outer trailing later := by
  have hpast : lx.pastBlanks.ahead = (back ++ later).drop (blankLength (back ++ later)) := by
    rw [← hahead]
    rfl
  have houtside : rest.depth = 0 := depth_of_not_word hnext hword hdepth
  have hlevel (hsame : rest.indents = lx.indents) : rest.indent = outer := by
    rw [indent, hsame, ← hindent, indent]
  rcases drop_blanks_append (hpasses.whole.of_suffix hback) with ⟨kept, hne, hkept, hdrop⟩ | hdrop
  · rw [hdrop] at hpast
    have hsuffix : kept <:+ trailing := hkept.trans hback
    have hwhole : WholeLines kept later := hpasses.whole.of_suffix hsuffix
    have hnot : lx.pastBlanks.ahead ≠ [] := by simp [hpast, hne]
    cases h.next hnext with
    | due _ hrest hsame hindents =>
      exact .inLine hrest houtside (hlevel hindents) hback (hsame.trans hahead)
    | closes _ _ hnil => exact absurd hnil hnot
    | ends _ hnil => exact absurd hnil hnot
    | comment _ hrest hcons hbehind hindents =>
      obtain ⟨more, hmore, hdropped⟩ := dropWhile_comment_append hwhole hne (hpast.symm.trans hcons)
      exact .inLine hrest houtside (hlevel hindents) (hmore.trans hsuffix) (hbehind.trans hdropped)
    | lineBreak hk hpos hindents =>
      rcases atLine_of_break hnext (.inr hk) houtside with ⟨hidle, hnil⟩ | ⟨hat, -⟩
      · exact .settled (.of_ahead_nil hidle hnil)
      obtain ⟨front, more, rfl, hfront, hdropped⟩ := drop_break_append hwhole hne (hpast ▸ hpos)
      obtain ⟨before, hbefore⟩ := hsuffix
      have hsplit : trailing = (before ++ front) ++ more := by rw [← hbefore, List.append_assoc]
      refine .atLine hat (hlevel hindents) hsplit ?_ ?_
      · rw [List.getLast?_append, hfront]
        simp
      · rw [(next_lineBreak hnext hk).2, hpast, hdropped]
    | word hk => simp [hword] at hk
  · have hsettled : lx.Settled later :=
      h.settled [] (hpast.trans hdrop) rfl (by simp) hpasses.ends
    exact .settled (hsettled.next hnext hword hbreak)

/-- At the beginning of a line, nothing is indented before the region ends. -/
theorem AtLine.next_waits {front back : List Char} (h : lx.AtLine)
    (hpasses : Passes outer trailing later) (hindent : lx.indent = outer)
    (hsplit : trailing = front ++ back) (hfront : ∀ c ∈ front.getLast?, c = '\n')
    (hahead : lx.ahead = back ++ later) (hnext : lx.next = (.ok t, rest)) (hword : t.kind.isWord = false)
    (hbreak : JoinsIndent later → t.kind = .lineBreak → byteLength later < byteLength lx.pastBlanks.ahead) :
    t.kind ≠ .indent ∧ rest.Waits outer trailing later := by
  cases hi : lx.onLine.indentation with
  | none =>
    have hidle : lx.onLine.Idle := ⟨rfl, h.empty⟩
    have honLine : lx.onLine.next = (.ok t, rest) := (h.next_onLine hi).trans hnext
    exact ⟨hidle.next_ne_indent honLine,
      hidle.next_waits hpasses h.outside hindent ⟨front, hsplit.symm⟩ hahead honLine hword hbreak⟩
  | some step =>
    rw [next_of_indentation h.settled h.started h.outside hi] at hnext
    subst hnext
    have hmeasured : ¬ IsSkipped lx.onLine.ahead := not_isSkipped_of_indentation hi
    obtain rfl : back = [] := by
      by_contra hne
      exact hmeasured (hahead ▸ hpasses.skips front back hsplit hfront hne)
    obtain rfl : lx.ahead = later := hahead
    have hne : lx.ahead ≠ [] := fun hnil => hmeasured (hnil ▸ .inl rfl)
    rcases indentation_cases hi with ⟨hdeeper, -⟩ | ⟨-, -, rfl, rfl⟩
    · have hwidth : indentWidth lx.ahead ≤ lx.indent := hindent ▸ (hpasses.ends hne).2
      exact absurd hdeeper (Nat.not_lt.2 hwidth)
    · refine ⟨by simp [token], .settled ?_⟩
      exact Idle.settled ⟨rfl, h.empty⟩ _ rfl lx.ahead_eq_gap_append
        (fun c hc => List.all_eq_true.1 List.all_takeWhile c hc) hpasses.ends

/-- **A reader that waits reads no indent,** and goes on waiting up to the next word, or the end of the
joined lines. -/
theorem Waits.next (h : lx.Waits outer trailing later) (hpasses : Passes outer trailing later)
    (hnext : lx.next = (.ok t, rest)) (hword : t.kind.isWord = false)
    (hbreak : JoinsIndent later → t.kind = .lineBreak → byteLength later < byteLength lx.pastBlanks.ahead) :
    t.kind ≠ .indent ∧ rest.Waits outer trailing later := by
  cases h with
  | atLine hat hindent hsplit hfront hahead =>
    exact hat.next_waits hpasses hindent hsplit hfront hahead hnext hword hbreak
  | inLine hidle hdepth hindent hback hahead =>
    exact ⟨hidle.next_ne_indent hnext,
      hidle.next_waits hpasses hdepth hindent hback hahead hnext hword hbreak⟩
  | settled hsettled =>
    exact ⟨hsettled.idle.next_ne_indent hnext, .settled (hsettled.next hnext hword hbreak)⟩

/-- **Nothing is indented behind a block before the next word,** or the end of the joined lines. -/
theorem Waits.emits {tokens : List Token} (hpasses : Passes outer trailing later)
    (hemits : lx.Emits tokens rest) (h : lx.Waits outer trailing later)
    (hwords : ∀ s ∈ tokens, s.kind.isWord = false)
    (hbreaks : JoinsIndent later → ∀ s ∈ tokens, s.kind = .lineBreak →
      s.start.offset + byteLength later < lx.here.offset + byteLength lx.ahead) :
    ∀ s ∈ tokens, s.kind ≠ .indent := by
  induction hemits with
  | nil => simp
  | @cons lx mid rest t tokens hnext _ ih =>
    rw [List.forall_mem_cons] at hwords
    have hbreak (hjoins : JoinsIndent later) (hk : t.kind = .lineBreak) :
        byteLength later < byteLength lx.pastBlanks.ahead := by
      have hstart := hbreaks hjoins t List.mem_cons_self hk
      have htotal := (lx.moves_advance (blankLength lx.ahead)).total
      rw [(next_lineBreak hnext hk).1, ← htotal] at hstart
      exact Nat.lt_of_add_lt_add_left hstart
    obtain ⟨hindent, hwaits⟩ := h.next hpasses hnext hwords.1 hbreak
    obtain ⟨gap, htakes⟩ := takes_next hnext
    refine List.forall_mem_cons.2 ⟨hindent, ih hwaits hwords.2 fun hjoins s hs hk => ?_⟩
    rw [htakes.moves.total]
    exact hbreaks hjoins s (List.mem_cons_of_mem t hs) hk

/-! ### Taking a block -/

/-- **How a block is taken:** its lines are a region behind the header, the reader goes on behind them, and
the open levels and brackets stay. -/
structure Captures (lx : Lexer) (raw : RawText) (rest : Lexer) (first : List Char)
    (block trailing later : List (List Char)) : Prop where
  lines : Text.physicalLines lx.ahead = block ++ (trailing ++ later)
  region : Region lx.indent first block trailing later
  text : raw.text.toList = block.flatten
  start : raw.start = lx.here
  stop : raw.stop = rest.here
  moves : lx.Moves block.flatten rest
  indents : rest.indents = lx.indents
  depth : rest.depth = lx.depth

theorem call_block_eq_nothing_iff :
    lx.call .block = (.nothing, lx) ↔ HasNoBlock lx.indent (Text.physicalLines lx.ahead) := by
  rw [← regionLines_eq_nil_iff, call, takeIndentedBlock]
  cases regionLines lx.indent none (Text.physicalLines lx.ahead) with
  | nil => simp
  | cons line lines => simp

/-- A block is taken where there is one. -/
theorem call_block_captures (h : ¬ HasNoBlock lx.indent (Text.physicalLines lx.ahead)) :
    ∃ raw rest first block trailing later, lx.call .block = (.raw raw, rest) ∧
      lx.Captures raw rest first block trailing later ∧ rest.atLineStart = true ∧
      rest.lineHasContent = false ∧ rest.pendingDedents = lx.pendingDedents := by
  obtain ⟨first, trailing, later, hlines, hregion⟩ := regionLines_region h
  have hne : regionLines lx.indent none (Text.physicalLines lx.ahead) ≠ [] := fun hnil =>
    h (regionLines_eq_nil_iff.1 hnil)
  obtain ⟨raw, rest, htake⟩ : ∃ raw rest, lx.takeIndentedBlock = some (raw, rest) := by
    unfold takeIndentedBlock
    split
    · next hnil => exact absurd hnil hne
    · exact ⟨_, _, rfl⟩
  have hcall : lx.call .block = (.raw raw, rest) := by rw [call, htake]
  have htext := takeIndentedBlock_text htake
  obtain ⟨hmoves, hstop, -, b, A, p, rfl⟩ := takeIndentedBlock_eq htake
  refine ⟨raw, _, first, regionLines lx.indent none (Text.physicalLines lx.ahead), trailing, later, hcall,
    ?_, rfl, rfl, rfl⟩
  exact
    { lines := hlines
      region := hregion
      text := htext
      start := takeIndentedBlock_start htake
      stop := hstop
      moves := htext ▸ hmoves
      indents := rfl
      depth := rfl }

/-- **Taking a block takes the indented region.** Behind the end of a logical line, at the beginning of a
line, a block is refused and the reader stays exactly if no line before the end of the region is deeper than
the header. Otherwise the lines of the region are taken up to those that trail the block, the open levels
and brackets stay, and no indent comes before the next word; only where the line that ends the region is
joined to the next one right behind its indentation, and the joined lines hold no word, does that end with
their line break. -/
theorem block_captured {lx₀ lx : Lexer} {t : Token} (h : lx₀.next = (.ok t, lx)) (hk : t.kind = .newline)
    (hstart : lx.atLineStart = true) :
    (lx.call .block = (.nothing, lx) ↔ HasNoBlock lx.indent (Text.physicalLines lx.ahead)) ∧
    (¬ HasNoBlock lx.indent (Text.physicalLines lx.ahead) →
      ∃ raw rest first block trailing later, lx.call .block = (.raw raw, rest) ∧
        lx.Captures raw rest first block trailing later ∧
        ∀ tokens last, rest.Emits tokens last → (∀ s ∈ tokens, s.kind.isWord = false) →
          (JoinsIndent later.flatten → ∀ s ∈ tokens, s.kind = .lineBreak →
            s.start.offset < rest.here.offset + byteLength trailing.flatten) →
          ∀ s ∈ tokens, s.kind ≠ .indent) := by
  refine ⟨call_block_eq_nothing_iff, fun hblock => ?_⟩
  obtain ⟨-, -, houtside, hsettled⟩ := atLine_of_newline h hk hstart
  obtain ⟨raw, rest, first, block, trailing, later, hcall, hcaptures, hline, hempty, hdue⟩ :=
    call_block_captures hblock
  refine ⟨raw, rest, first, block, trailing, later, hcall, hcaptures, ?_⟩
  intro tokens last hemits hwords hbreaks
  have hahead : rest.ahead = trailing.flatten ++ later.flatten := by
    have hflat := Text.flatten_physicalLines lx.ahead
    rw [hcaptures.lines, List.flatten_append, List.flatten_append, hcaptures.moves.ahead] at hflat
    exact (List.append_cancel_left hflat).symm
  have hlines : Text.physicalLines rest.ahead = trailing ++ later := by
    rw [hahead, ← List.flatten_append]
    exact (Text.physicalLines_eq_append hcaptures.lines).1
  have hat : rest.AtLine := ⟨hline, hempty, hcaptures.depth.trans houtside, hdue.trans hsettled⟩
  have hwaits : rest.Waits lx.indent trailing.flatten later.flatten :=
    .atLine hat (by rw [indent, hcaptures.indents, indent]) (List.nil_append _).symm (by simp) hahead
  refine hwaits.emits (hcaptures.region.passes hlines) hemits hwords fun hjoins s hs hk' => ?_
  have hbefore := hbreaks hjoins s hs hk'
  rw [hahead, byteLength_append]
  omega

/-- A header with a body that begins with a comment. Comments at two depths trail it. -/
def bodySource : String := "x:\n\n    # deep\n  a\n   # mid\n\n# low\ny\n"

theorem bodySource_captured :
    ∃ t lx raw rest, ((ofSource bodySource).afterTokens 2).next = (.ok t, lx) ∧ t.kind = .newline ∧
      lx.atLineStart = true ∧ lx.call .block = (.raw raw, rest) ∧
      raw.text = "\n    # deep\n  a\n" ∧ rest.indents = [0] ∧
      ∀ tokens last, rest.Emits tokens last → (∀ s ∈ tokens, s.kind.isWord = false) →
        ∀ s ∈ tokens, s.kind ≠ .indent := by
  let t : Token := ⟨.newline, "\n", ⟨2, 1, 2⟩, ⟨3, 1, 3⟩, "x:\n"⟩
  let lx : Lexer := (ofSource bodySource).afterTokens 3
  have hnext : ((ofSource bodySource).afterTokens 2).next = (.ok t, lx) := next_afterTokens (by decide +kernel)
  have hstart : lx.atLineStart = true := by decide +kernel
  have hblock : ¬ HasNoBlock lx.indent (Text.physicalLines lx.ahead) :=
    regionLines_eq_nil_iff.not.1 (by decide +kernel)
  obtain ⟨raw, rest, first, block, trailing, later, hcall, hcaptures, hwaits⟩ :=
    (block_captured hnext rfl hstart).2 hblock
  have htext : (lx.call .block).1 = .raw ⟨"\n    # deep\n  a\n", ⟨3, 2, 0⟩, ⟨19, 5, 0⟩⟩ := by
    decide +kernel
  have hraw : raw.text = "\n    # deep\n  a\n" := by
    rw [hcall] at htext
    injection htext with heq
    rw [heq]
  have hindents : lx.indents = [0] := by decide +kernel
  refine ⟨t, lx, raw, rest, hnext, rfl, hstart, hcall, hraw, hcaptures.indents.trans hindents, ?_⟩
  intro tokens last hemits hwords
  refine hwaits tokens last hemits hwords fun hjoins => ?_
  -- no line of this source is joined to another one
  obtain ⟨gap, more, hlater, -⟩ := hjoins
  have hmem : '\\' ∈ lx.ahead := by
    rw [← Text.flatten_physicalLines lx.ahead, hcaptures.lines]
    simp only [List.flatten_append, List.mem_append, hlater]
    simp
  exact absurd hmem (by decide +kernel)

/-- A block, behind which a blank line is joined to an empty one. The line behind them is deeper. -/
def joinedSource : String := "x\n  a\n\\\n\n    y\n"

/-- Behind the line break of joined lines without a word, a deeper line is indented. -/
theorem joinedSource_indented :
    ∃ t lx raw rest tokens last, ((ofSource joinedSource).afterTokens 1).next = (.ok t, lx) ∧
      t.kind = .newline ∧ lx.atLineStart = true ∧ lx.call .block = (.raw raw, rest) ∧
      rest.Emits tokens last ∧ (∀ s ∈ tokens, s.kind.isWord = false) ∧ ∃ s ∈ tokens, s.kind = .indent := by
  let lx : Lexer := (ofSource joinedSource).afterTokens 2
  let rest : Lexer := (lx.call .block).2
  let ended : Token := ⟨.lineBreak, "\n", ⟨8, 4, 0⟩, ⟨9, 4, 1⟩, "\n"⟩
  let deeper : Token := ⟨.indent, "    ", ⟨9, 5, 0⟩, ⟨13, 5, 4⟩, "    y\n"⟩
  have hnext : ((ofSource joinedSource).afterTokens 1).next =
      (.ok ⟨.newline, "\n", ⟨1, 1, 1⟩, ⟨2, 1, 2⟩, "x\n"⟩, lx) := next_afterTokens (by decide +kernel)
  have hcall : lx.call .block = (.raw ⟨"  a\n", ⟨2, 2, 0⟩, ⟨6, 3, 0⟩⟩, rest) :=
    Prod.ext (by decide +kernel) rfl
  have hended : (rest.afterTokens 0).next = (.ok ended, rest.afterTokens 1) :=
    next_afterTokens (by decide +kernel)
  have hdeeper : (rest.afterTokens 1).next = (.ok deeper, rest.afterTokens 2) :=
    next_afterTokens (by decide +kernel)
  exact ⟨_, lx, _, rest, [ended, deeper], _, hnext, rfl, by decide +kernel, hcall,
    .cons hended (.cons hdeeper (.nil _)), by decide, deeper, by simp, rfl⟩

end Lexer

end Quasiquote
