import Mathlib.Data.List.TakeWhile
import Quasiquote.Proofs.Text.Lines
import Quasiquote.Site.Pragma

/-!
# The grammar of opting in

A line declares an encoding if it matches the pattern `[ \t\f]*#.*?coding[:=][ \t]*([\w.-]+)`. Of the ways in
which it does, the one is taken that finds the word `coding` first, with as much of a name as there is. The
search for the word takes this one, however many words it passes that have no sign or no name behind them.

## Main Definitions

* `Pragma.Declaration` — the parts of a line that matches the pattern
* `Pragma.Declaration.Taken` — the match that is taken

## Main Statements

* `Pragma.inComment?_eq_some_iff` — the search stops at the first word with a name behind it
* `Pragma.declared?_eq_some_iff` — the encoding that a line declares is that of the match
* `Pragma.isEnabled_iff` — which sources opt in
-/

namespace Quasiquote.Pragma

/-! ### The pattern -/

/-- A line in the parts of the pattern `[ \t\f]*#.*?coding[:=][ \t]*([\w.-]+)`, and what is left of it. -/
structure Declaration where
  gap : List Char
  front : List Char
  sign : Char
  blanks : List Char
  name : List Char
  rest : List Char

namespace Declaration

/-- The parts from the sign on. -/
def tail (d : Declaration) : List Char := d.sign :: (d.blanks ++ (d.name ++ d.rest))

/-- The parts behind the mark of the comment. -/
def comment (d : Declaration) : List Char := d.front ++ (keyword ++ d.tail)

/-- **A match of the pattern.** -/
structure Matches (d : Declaration) (line : List Char) : Prop where
  text : line = d.gap ++ '#' :: d.comment
  gap : ∀ c ∈ d.gap, c = ' ' ∨ c = '\t' ∨ c = '\x0c'
  sign : d.sign = ':' ∨ d.sign = '='
  blanks : ∀ c ∈ d.blanks, c = ' ' ∨ c = '\t'
  name : ∀ c ∈ d.name, Text.isAlphanumeric c = true ∨ c = '_' ∨ c = '.' ∨ c = '-'
  name_ne_nil : d.name ≠ []

/-- **The match that is taken:** the leftmost one, with the longest name. -/
structure Taken (d : Declaration) (line : List Char) : Prop where
  isMatch : d.Matches line
  leftmost : ∀ e : Declaration, e.Matches line → d.front.length ≤ e.front.length
  longest : ∀ e : Declaration, e.Matches line → e.front.length = d.front.length →
    e.name.length ≤ d.name.length

end Declaration

/-! ### Names -/

theorem isNamePart_iff {c : Char} :
    isNamePart c = true ↔ Text.isAlphanumeric c = true ∨ c = '_' ∨ c = '.' ∨ c = '-' := by
  simp only [isNamePart, Bool.or_eq_true, beq_iff_eq]
  grind

theorem isGap_iff {c : Char} : Scan.isGap c = true ↔ c = ' ' ∨ c = '\t' ∨ c = '\x0c' := by
  simp [Scan.isGap, or_assoc]

/-- A name begins behind the blanks, and goes on as long as it can. -/
theorem value?_tail {d : Declaration} {line : List Char} (h : d.Matches line) :
    value? d.tail = some (d.name ++ d.rest.takeWhile isNamePart) := by
  have hblanks : ∀ c ∈ d.blanks, (c == ' ' || c == '\t') = true := by simpa using h.blanks
  have hname : ∀ c ∈ d.name, isNamePart c = true := fun c hc => isNamePart_iff.2 (h.name c hc)
  have hbehind : (d.name ++ d.rest).dropWhile (fun c => c == ' ' || c == '\t') = d.name ++ d.rest := by
    obtain ⟨c, name, hcons⟩ := List.exists_cons_of_ne_nil h.name_ne_nil
    have hc : isNamePart c = true := hname c (hcons ▸ List.mem_cons_self)
    have hfirst : (c == ' ' || c == '\t') = false := by
      rw [Bool.eq_false_iff]
      intro hblank
      rcases Bool.or_eq_true_iff.1 hblank with heq | heq
      · exact absurd (eq_of_beq heq ▸ hc) (by decide)
      · exact absurd (eq_of_beq heq ▸ hc) (by decide)
    rw [hcons, List.cons_append, List.dropWhile_cons_of_neg (by simp [hfirst])]
  rw [Declaration.tail, value?, if_pos h.sign, List.dropWhile_append_of_pos hblanks, hbehind,
    List.takeWhile_append_of_pos hname]
  simp [h.name_ne_nil]

/-- What is found behind the word is a sign, blanks and a name. -/
theorem exists_tail_of_value? {text name : List Char} (h : value? text = some name) :
    ∃ sign blanks rest, text = sign :: (blanks ++ (name ++ rest)) ∧ (sign = ':' ∨ sign = '=') ∧
      (∀ c ∈ blanks, c = ' ' ∨ c = '\t') ∧ (∀ c ∈ name, isNamePart c = true) ∧ name ≠ [] := by
  cases text with
  | nil => cases h
  | cons sign text =>
    rw [value?] at h
    split at h
    · next hsign =>
      dsimp only at h
      split at h
      · cases h
      · next hempty =>
        cases h
        refine ⟨sign, text.takeWhile fun c => c == ' ' || c == '\t',
          (text.dropWhile fun c => c == ' ' || c == '\t').dropWhile isNamePart, ?_, hsign, ?_, ?_, ?_⟩
        · rw [List.takeWhile_append_dropWhile, List.takeWhile_append_dropWhile]
        · intro c hc
          simpa using List.mem_takeWhile_imp hc
        · exact fun c hc => List.mem_takeWhile_imp hc
        · simpa using hempty
    · cases h

/-! ### Searching -/

/-- The name behind the word `coding`, if a text begins with it. -/
def here? (text : List Char) : Option (List Char) :=
  if keyword.isPrefixOf text then value? (text.drop keyword.length) else none

theorem inComment?_cons (c : Char) (rest : List Char) :
    inComment? (c :: rest) = (here? (c :: rest)).or (inComment? rest) := by
  rw [inComment?, here?]
  split
  · rfl
  · rfl

theorem here?_keyword (after : List Char) : here? (keyword ++ after) = value? after := by
  rw [here?, if_pos (by simp [List.isPrefixOf_iff_prefix]), List.drop_left]

theorem exists_of_here? {text name : List Char} (h : here? text = some name) :
    ∃ after, text = keyword ++ after ∧ value? after = some name := by
  rw [here?] at h
  split at h
  · next hprefix =>
    obtain ⟨after, rfl⟩ := List.isPrefixOf_iff_prefix.1 hprefix
    rw [List.drop_left] at h
    exact ⟨after, rfl, h⟩
  · cases h

/-- **The search stops at the first word with a name behind it.** -/
theorem inComment?_eq_some_iff {text name : List Char} :
    inComment? text = some name ↔
      ∃ front after, text = front ++ (keyword ++ after) ∧ value? after = some name ∧
        ∀ front' after', text = front' ++ (keyword ++ after') → front'.length < front.length →
          value? after' = none := by
  induction text generalizing name with
  | nil =>
    constructor
    · intro h
      cases h
    · rintro ⟨front, after, htext, -⟩
      have hlength := congrArg List.length htext
      simp [keyword] at hlength
  | cons c rest ih =>
    rw [inComment?_cons]
    cases hhere : here? (c :: rest) with
    | some found =>
      obtain ⟨after, htext, hafter⟩ := exists_of_here? hhere
      rw [Option.some_or, Option.some.injEq]
      constructor
      · rintro rfl
        exact ⟨[], after, htext, hafter, fun _ _ _ hlt => absurd hlt (Nat.not_lt_zero _)⟩
      · rintro ⟨front, after', hfront, hafter', hleft⟩
        cases front with
        | nil =>
          obtain rfl := List.append_cancel_left (htext.symm.trans hfront)
          exact Option.some.inj (hafter.symm.trans hafter')
        | cons d front =>
          -- the word at the beginning would have been found before
          rw [hleft [] after htext (by simp)] at hafter
          cases hafter
    | none =>
      have hnone : ∀ after, c :: rest = keyword ++ after → value? after = none := by
        intro after htext
        rwa [htext, here?_keyword] at hhere
      rw [Option.none_or, ih]
      constructor
      · rintro ⟨front, after, rfl, hafter, hleft⟩
        refine ⟨c :: front, after, rfl, hafter, fun front' after' htext hlt => ?_⟩
        cases front' with
        | nil => exact hnone after' htext
        | cons d front' =>
          rw [List.cons_append, List.cons.injEq] at htext
          exact hleft front' after' htext.2 (Nat.lt_of_succ_lt_succ hlt)
      · rintro ⟨front, after, htext, hafter, hleft⟩
        cases front with
        | nil =>
          rw [hnone after htext] at hafter
          cases hafter
        | cons d front =>
          rw [List.cons_append, List.cons.injEq] at htext
          obtain ⟨rfl, rfl⟩ := htext
          exact ⟨front, after, rfl, hafter, fun front' after' heq hlt =>
            hleft (c :: front') after' (by rw [heq]; rfl) (Nat.succ_lt_succ hlt)⟩

/-- A word with a name behind it is not passed, or another one is found before it. -/
theorem inComment?_ne_none {after name : List Char} (h : value? after = some name) (front : List Char) :
    inComment? (front ++ (keyword ++ after)) ≠ none := by
  induction front with
  | nil =>
    have hhere : here? (keyword ++ after) = some name := (here?_keyword after).trans h
    obtain ⟨c, rest, hcons⟩ : ∃ c rest, keyword ++ after = c :: rest := ⟨_, _, rfl⟩
    rw [List.nil_append, hcons, inComment?_cons, ← hcons, hhere]
    simp
  | cons c front ih =>
    rw [List.cons_append, inComment?_cons]
    cases here? (c :: (front ++ (keyword ++ after))) with
    | some found => simp
    | none => exact ih

/-! ### Declarations -/

/-- A comment is what stands behind the first mark, if only a gap stands before that. -/
theorem dropWhile_gap {gap : List Char} (h : ∀ c ∈ gap, c = ' ' ∨ c = '\t' ∨ c = '\x0c')
    (comment : List Char) : (gap ++ '#' :: comment).dropWhile Scan.isGap = '#' :: comment := by
  rw [List.dropWhile_append_of_pos fun c hc => isGap_iff.2 (h c hc)]
  rfl

theorem Declaration.Matches.declared? {d : Declaration} {line : List Char} (h : d.Matches line) :
    Pragma.declared? line = inComment? d.comment := by
  rw [Pragma.declared?, h.text, dropWhile_gap h.gap]
  rfl

/-- A word with a name behind it, anywhere in a comment, makes a match. -/
theorem exists_matches {gap after name : List Char} (front : List Char)
    (hgap : ∀ c ∈ gap, c = ' ' ∨ c = '\t' ∨ c = '\x0c') (h : value? after = some name) :
    ∃ d : Declaration, d.Matches (gap ++ '#' :: (front ++ (keyword ++ after))) ∧ d.front = front ∧
      d.name = name := by
  obtain ⟨sign, blanks, rest, rfl, hsign, hblanks, hname, hne⟩ := exists_tail_of_value? h
  exact ⟨⟨gap, front, sign, blanks, name, rest⟩,
    ⟨rfl, hgap, hsign, hblanks, fun c hc => isNamePart_iff.1 (hname c hc), hne⟩, rfl, rfl⟩

/-- All of a name is taken. -/
theorem Declaration.Taken.value? {d : Declaration} {line : List Char} (h : d.Taken line) :
    Pragma.value? d.tail = some d.name := by
  rw [value?_tail h.isMatch]
  let e : Declaration :=
    { d with name := d.name ++ d.rest.takeWhile isNamePart, rest := d.rest.dropWhile isNamePart }
  have hcomment : e.comment = d.comment := by
    simp [Declaration.comment, Declaration.tail, e, List.takeWhile_append_dropWhile]
  have he : e.Matches line :=
    { text := hcomment ▸ h.isMatch.text
      gap := h.isMatch.gap
      sign := h.isMatch.sign
      blanks := h.isMatch.blanks
      name := by
        intro c hc
        rcases List.mem_append.1 hc with hc | hc
        · exact h.isMatch.name c hc
        · exact isNamePart_iff.1 (List.mem_takeWhile_imp hc)
      name_ne_nil := by simp [e, h.isMatch.name_ne_nil] }
  have hlength := h.longest e he rfl
  have hnil : d.rest.takeWhile isNamePart = [] := by
    rw [← List.length_eq_zero_iff]
    simp only [e, List.length_append] at hlength
    omega
  rw [hnil, List.append_nil]

/-- **The encoding that a line declares** is the name in the match that is taken. -/
theorem declared?_eq_some_iff {line name : List Char} :
    declared? line = some name ↔ ∃ d : Declaration, d.Taken line ∧ d.name = name := by
  constructor
  · intro h
    rw [declared?] at h
    split at h
    · next comment hcomment =>
      obtain ⟨front, after, rfl, hafter, hleft⟩ := inComment?_eq_some_iff.1 h
      have hline : line = line.takeWhile Scan.isGap ++ '#' :: (front ++ (keyword ++ after)) := by
        rw [← hcomment, List.takeWhile_append_dropWhile]
      obtain ⟨d, hd, rfl, rfl⟩ := exists_matches front
        (fun c hc => isGap_iff.1 (List.mem_takeWhile_imp hc)) hafter
      rw [← hline] at hd
      -- every match is one of the same comment
      have hsame : ∀ e : Declaration, e.Matches line →
          d.front ++ (keyword ++ after) = e.front ++ (keyword ++ e.tail) := by
        intro e he
        rw [he.text, dropWhile_gap he.gap, List.cons.injEq] at hcomment
        exact hcomment.2.symm
      refine ⟨d, ⟨hd, fun e he => ?_, fun e he hfront => ?_⟩, rfl⟩
      · by_contra hlt
        have hnone := hleft e.front e.tail (hsame e he) (Nat.lt_of_not_le hlt)
        rw [value?_tail he] at hnone
        cases hnone
      · obtain ⟨-, htail⟩ := List.append_inj (hsame e he) hfront.symm
        rw [List.append_cancel_left htail, value?_tail he] at hafter
        rw [← Option.some.inj hafter, List.length_append]
        exact Nat.le_add_right _ _
    · cases h
  · rintro ⟨d, hd, rfl⟩
    rw [hd.isMatch.declared?, inComment?_eq_some_iff]
    refine ⟨d.front, d.tail, rfl, hd.value?, fun front after htext hlt => ?_⟩
    cases hafter : value? after with
    | none => rfl
    | some name =>
      obtain ⟨e, he, rfl, -⟩ := exists_matches front hd.isMatch.gap hafter
      rw [← htext, ← hd.isMatch.text] at he
      exact absurd (hd.leftmost e he) (Nat.not_le_of_lt hlt)

/-- A line declares no encoding only if it does not match. -/
theorem declared?_eq_none_iff {line : List Char} :
    declared? line = none ↔ ¬ ∃ d : Declaration, d.Matches line := by
  constructor
  · rintro h ⟨d, hd⟩
    rw [hd.declared?] at h
    exact inComment?_ne_none (value?_tail hd) d.front h
  · intro h
    cases hdeclared : declared? line with
    | none => rfl
    | some name =>
      obtain ⟨d, hd, -⟩ := declared?_eq_some_iff.1 hdeclared
      exact absurd ⟨d, hd.isMatch⟩ h

/-! ### Sources -/

/-- A line that declares the encoding of quote sites. The case of ASCII letters does not matter. -/
def OptsIn (line : List Char) : Prop :=
  ∃ d : Declaration, d.Taken line ∧ d.name.map Char.toLower = encoding.toList

/-- A line that is blank or a comment. -/
def LetsPass (line : List Char) : Prop :=
  (∀ c ∈ line, c = ' ' ∨ c = '\t' ∨ c = '\x0c') ∨
    ∃ gap comment, line = gap ++ '#' :: comment ∧ ∀ c ∈ gap, c = ' ' ∨ c = '\t' ∨ c = '\x0c'

theorem passes_iff {line : List Char} : passes line = true ↔ LetsPass line := by
  constructor
  · intro h
    rw [passes] at h
    split at h
    · next hnil => exact .inl fun c hc => isGap_iff.1 (List.dropWhile_eq_nil_iff.1 hnil c hc)
    · next c comment hcons =>
      obtain rfl := eq_of_beq h
      refine .inr ⟨line.takeWhile Scan.isGap, comment, ?_, fun c hc => ?_⟩
      · rw [← hcons, List.takeWhile_append_dropWhile]
      · exact isGap_iff.1 (List.mem_takeWhile_imp hc)
  · rintro (hblank | ⟨gap, comment, rfl, hgap⟩)
    · rw [passes, List.dropWhile_eq_nil_iff.2 fun c hc => isGap_iff.2 (hblank c hc)]
    · rw [passes, dropWhile_gap hgap]
      rfl

/-- **The first line that decides anything decides.** -/
theorem enabledBy_cons {line : List Char} {lines : List (List Char)} :
    enabledBy (line :: lines) = true ↔
      OptsIn line ∨ (¬ ∃ d : Declaration, d.Matches line) ∧ LetsPass line ∧ enabledBy lines = true := by
  rw [enabledBy, ← declared?_eq_none_iff, ← passes_iff]
  cases hdeclared : declared? line with
  | some name =>
    obtain ⟨d, hd, hname⟩ := declared?_eq_some_iff.1 hdeclared
    simp only [beq_iff_eq, reduceCtorEq, false_and, or_false]
    constructor
    · intro h
      exact ⟨d, hd, hname ▸ h⟩
    · rintro ⟨e, he, hencoding⟩
      rw [declared?_eq_some_iff.2 ⟨e, he, rfl⟩] at hdeclared
      exact Option.some.inj hdeclared ▸ hencoding
  | none =>
    have hnot : ¬ OptsIn line := by
      rintro ⟨e, he, -⟩
      rw [declared?_eq_some_iff.2 ⟨e, he, rfl⟩] at hdeclared
      cases hdeclared
    simp [hnot]

/-- **The sources that opt in.** Behind the byte order mark, if there is one, the first line declares the
encoding; or it matches no declaration and is blank or a comment, and the second line declares the encoding. -/
theorem isEnabled_iff (source : String) :
    isEnabled source = true ↔
      ∃ first later, Text.SplitInto (stripMark source.toList) (first :: later) ∧
        (OptsIn first ∨ (¬ ∃ d : Declaration, d.Matches first) ∧ LetsPass first ∧
          ∃ second ∈ later.head?, OptsIn second) := by
  simp only [isEnabled, Text.splitInto_iff]
  cases Text.lines (stripMark source.toList) with
  | nil => simp
  | cons first later =>
    have hsecond : enabledBy (later.take 1) = true ↔ ∃ second ∈ later.head?, OptsIn second := by
      cases later with
      | nil => simp
      | cons second later => simp [enabledBy_cons]
    rw [List.take_succ_cons, enabledBy_cons, hsecond]
    constructor
    · intro h
      exact ⟨first, later, rfl, h⟩
    · rintro ⟨_, _, heq, h⟩
      cases heq
      exact h

/-- A comment that names the word three times before it declares. -/
example : isEnabled "\ufeff#!python\r\n \t# no encoding, coding= !, recoding:= x, coding=\t QuasiQuotes!" =
    true := by decide +kernel

end Quasiquote.Pragma
