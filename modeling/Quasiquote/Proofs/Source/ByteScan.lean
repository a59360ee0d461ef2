import Quasiquote.Proofs.Source.ByteView
import Quasiquote.Proofs.Source.IndentedBlock
import Quasiquote.Proofs.Text.Lines

/-!
# The loops over bytes

On a view between two texts, the loops that find the end of a number, of a literal and of a block come to
an end inside the buffer. They end where the rules for characters say.

## Main Statements

* `ByteView.numberEnd?_between`, `ByteView.literalBody?_between` — numbers and literals
* `ByteView.regionEnd_split` — the lines of a block
-/

namespace Quasiquote

open Utf8 (encode IsAscii Uniform uniform_of_ascii uniform_of_wide)

namespace Scan

/-! ### Classes told by bytes -/

theorem isAscii_of_isQuote {c : Char} (h : isQuote c = true) : IsAscii c :=
  Utf8.isAscii_of_beq_or (by decide) (by decide) h

theorem isAscii_of_isNumberPart {c : Char} (h : isNumberPart c = true) : IsAscii c :=
  Utf8.isAscii_of_utf8Size (utf8Size_of_isNumberPart h)

/-- The marks of exponents. -/
def isExponent (c : Char) : Bool := c == 'e' || c == 'E'

theorem isAscii_of_isExponent {c : Char} (h : isExponent c = true) : IsAscii c :=
  Utf8.isAscii_of_beq_or (by decide) (by decide) h

theorem isAscii_of_isSign {c : Char} (h : isSign c = true) : IsAscii c :=
  Utf8.isAscii_of_beq_or (by decide) (by decide) h

theorem uniform_isExponent : Uniform isExponent := uniform_of_ascii fun _ => isAscii_of_isExponent

theorem uniform_isSign : Uniform isSign := uniform_of_ascii fun _ => isAscii_of_isSign

theorem uniform_isQuote : Uniform isQuote := uniform_of_ascii fun _ => isAscii_of_isQuote

theorem uniform_isNumberPart : Uniform isNumberPart := uniform_of_ascii fun _ => isAscii_of_isNumberPart

theorem uniform_isIdentStart : Uniform isIdentStart :=
  uniform_of_wide fun c hc => by
    rw [isIdentStart, decide_eq_true (Nat.le_of_not_lt hc), Bool.or_true]

theorem uniform_isIdentPart : Uniform isIdentPart :=
  uniform_of_wide fun c hc => by
    rw [isIdentPart, isIdentStart, decide_eq_true (Nat.le_of_not_lt hc), Bool.or_true, Bool.true_or]

end Scan

namespace ByteView

variable {v : ByteView} {mark : Nat} {before ahead : List Char}

theorem charAt_next {c : Char} (hc : IsAscii c) :
    (between mark before (c :: ahead)).charAt ((between mark before (c :: ahead)).pos + 1) =
      front ahead := by
  have hsize : byteLength [c] = 1 := Utf8.utf8Size_ascii hc
  rw [← hsize]
  exact charAt_between [c]

theorem charAt_next₂ {c d : Char} (hc : IsAscii c) (hd : IsAscii d) :
    (between mark before (c :: d :: ahead)).charAt ((between mark before (c :: d :: ahead)).pos + 2) =
      front ahead := by
  have hsize : byteLength [c, d] = 2 := by
    rw [byteLength_cons, byteLength_cons, Utf8.utf8Size_ascii hc, Utf8.utf8Size_ascii hd, byteLength_nil]
  rw [← hsize]
  exact charAt_between [c, d]

/-! ### Numbers -/

/-- Before an exponent mark, the mark of a hexadecimal number is already there. -/
theorem isHexadecimal_before {c : Char} (hc : Scan.isExponent c = true) (s rest : List Char) :
    Scan.isHexadecimal (s ++ c :: rest) = Scan.isHexadecimal s := by
  match s with
  | [] =>
    unfold Scan.isHexadecimal
    split <;> simp_all [Scan.isExponent]
  | [x] =>
    unfold Scan.isHexadecimal
    split <;> simp_all [Scan.isExponent]
  | x :: y :: s => exact Scan.isHexadecimal_cons_cons x y (s ++ c :: rest) s

/-- Whether the character at the beginning of a text takes a sign with it, in a number that `s` and the
text belong to. -/
def takesSign (s text : List Char) : Bool :=
  text.head?.any Scan.isExponent && text.tail.head?.any Scan.isSign && !Scan.isHexadecimal (s ++ text)

theorem takesSign?_between (s : List Char) :
    (between mark (before ++ s) ahead).takesSign? (byteLength before) (front ahead) =
      some (takesSign s ahead) := by
  have hmark := front_any Scan.uniform_isExponent rfl ahead
  cases hexponent : ahead.head?.any Scan.isExponent with
  | false =>
    rw [hexponent, Scan.isExponent] at hmark
    rw [takesSign?, hmark, takesSign, hexponent]
    rfl
  | true =>
    obtain ⟨c, rest, rfl⟩ : ∃ c rest, ahead = c :: rest := by
      cases ahead with
      | nil => cases hexponent
      | cons c rest => exact ⟨c, rest, rfl⟩
    have hc : Scan.isExponent c = true := hexponent
    have hascii := Scan.isAscii_of_isExponent hc
    rw [hexponent, Scan.isExponent] at hmark
    have hsign : (front rest == '+' || front rest == '-') = rest.head?.any Scan.isSign :=
      front_any Scan.uniform_isSign rfl rest
    have hslice : (between mark (before ++ s) (c :: rest)).slice? (byteLength before)
        (between mark (before ++ s) (c :: rest)).pos = some (String.ofList s) := by
      have hbytes : (between mark (before ++ s) (c :: rest)).bytes = encode (before ++ (s ++ c :: rest)) := by
        rw [between, List.append_assoc]
      have hcut := slice?_split hbytes
      rwa [← byteLength_append] at hcut
    rw [takesSign?, hmark, charAt_next hascii, hsign, hslice, takesSign, hexponent, Bool.true_and, Bool.true_and,
      isHexadecimal_before hc, List.tail_cons]
    cases rest.head?.any Scan.isSign with
    | false => rfl
    | true => simp

theorem numberEnd?_eq {start : Nat} {c : Char} {sign : Bool} (h : v.charHere? = some c)
    (hsign : v.takesSign? start c = some sign) :
    v.numberEnd? start =
      if sign then (v.advance 2).numberEnd? start
      else if Scan.isNumberPart c then (v.advance 1).numberEnd? start
      else some v := by
  rw [numberEnd?]
  split
  · next hnone =>
    rw [h] at hnone
    cases hnone
  · next d hd =>
    rw [h] at hd
    cases hd
    rw [hsign]
    cases sign <;> rfl

/-- One step of the rest of a number. -/
theorem numberTail_cons (hexadecimal : Bool) (s : List Char) {c : Char} {rest : List Char}
    (hhex : Scan.isHexadecimal (s ++ c :: rest) = hexadecimal) :
    Scan.numberTail hexadecimal (c :: rest) =
      if takesSign s (c :: rest) then Scan.numberTail hexadecimal rest.tail + 2
      else if Scan.isNumberPart c then Scan.numberTail hexadecimal rest + 1
      else 0 := by
  cases rest with
  | nil =>
    rw [Scan.numberTail_singleton]
    simp [takesSign]
  | cons d rest =>
    rw [Scan.numberTail_cons_cons, takesSign, hhex]
    rfl

/-- **The end of a number.** The part `s` of it has been read. -/
theorem numberEnd?_tail {hexadecimal : Bool} (s text : List Char)
    (hhex : Scan.isHexadecimal (s ++ text) = hexadecimal) :
    (between mark (before ++ s) text).numberEnd? (byteLength before) =
      some (between mark (before ++ (s ++ text.take (Scan.numberTail hexadecimal text)))
        (text.drop (Scan.numberTail hexadecimal text))) := by
  rw [numberEnd?_eq charHere?_between (takesSign?_between s)]
  match text, hhex with
  | [], _ =>
    rw [if_neg (by simp [takesSign]), if_neg (by decide)]
    simp
  | c :: rest, hhex =>
    rw [numberTail_cons hexadecimal s hhex]
    split
    · next hsign =>
      -- the exponent mark and its sign are one byte each
      obtain ⟨d, rest, rfl⟩ : ∃ d more, rest = d :: more := by
        cases rest with
        | nil => simp [takesSign] at hsign
        | cons d more => exact ⟨d, more, rfl⟩
      have hparts : Scan.isExponent c = true ∧ Scan.isSign d = true := by
        rw [takesSign, Bool.and_eq_true, Bool.and_eq_true] at hsign
        exact hsign.1
      have hc := Scan.isAscii_of_isExponent hparts.1
      have hd := Scan.isAscii_of_isSign hparts.2
      have hmoved : (between mark (before ++ s) (c :: d :: rest)).advance 2 =
          between mark (before ++ (s ++ [c, d])) rest := by
        rw [← advance_advance _ 1 1, advance_ascii hc, advance_ascii hd]
        simp
      rw [hmoved, numberEnd?_tail (s ++ [c, d]) rest (by simpa using hhex)]
      simp
    · rw [front_uniform Scan.uniform_isNumberPart]
      split
      · next hpart =>
        have hmoved : (between mark (before ++ s) (c :: rest)).advance 1 =
            between mark (before ++ (s ++ [c])) rest := by
          rw [advance_ascii (Scan.isAscii_of_isNumberPart hpart), List.append_assoc]
        rw [hmoved, numberEnd?_tail (s ++ [c]) rest (by simpa using hhex)]
        simp
      · simp
termination_by text.length

theorem numberEnd?_between :
    (between mark before ahead).numberEnd? (byteLength before) =
      some (between mark (before ++ ahead.take (Scan.numberLength ahead))
        (ahead.drop (Scan.numberLength ahead))) := by
  have hend : (between mark (before ++ []) ahead).numberEnd? (byteLength before) = _ :=
    numberEnd?_tail [] ahead rfl
  rwa [List.append_nil] at hend

/-! ### Literals -/

theorem literalBody?_eq {quote c : Char} {triple : Bool} (h : v.charHere? = some c) :
    v.literalBody? quote triple =
      if v.endsHere c then some (false, v)
      else if c = '\\' then v.eatEscape?.bind fun w => w.literalBody? quote triple
      else if c = quote then
        if !triple then some (true, v.advance 1)
        else if v.charAt (v.pos + 1) = quote ∧ v.charAt (v.pos + 2) = quote then
          some (true, v.advance 3)
        else (v.advance 1).literalBody? quote triple
      else if Scan.endsLine c && !triple then some (false, v)
      else v.advanceCharacter.literalBody? quote triple := by
  rw [literalBody?]
  split
  · next hnone =>
    rw [h] at hnone
    cases hnone
  · next d hd =>
    rw [h] at hd
    cases hd
    split
    · rfl
    split
    · split
      · next hescape => rw [hescape]; rfl
      · next w hescape => rw [hescape]; rfl
    · rfl

/-- The characters that a backslash takes with it: a line break, or one of any kind. -/
def escapeLength (text : List Char) : Nat := max 1 (Scan.breakLength text)

theorem bodyLength_backslash (quote : Char) (triple : Bool) (text : List Char) :
    Scan.bodyLength quote triple ('\\' :: text) =
      Scan.bodyLength.grow ('\\' :: text.take (escapeLength text)).length
        (Scan.bodyLength quote triple (text.drop (escapeLength text))) := by
  match text with
  | [] => rfl
  | [c] =>
    have hone : escapeLength [c] = 1 := by
      rw [escapeLength, Scan.breakLength_cons]
      split <;> simp
    rw [Scan.bodyLength_escape quote triple (by simp), hone]
    rfl
  | c :: d :: rest =>
    by_cases hcrlf : c = '\r' ∧ d = '\n'
    · obtain ⟨rfl, rfl⟩ := hcrlf
      exact Scan.bodyLength_crlf quote triple rest
    · have hone : escapeLength (c :: d :: rest) = 1 := by
        have hnot : ¬ (c = '\r' ∧ (d :: rest).head? = some '\n') := by simpa using hcrlf
        rw [escapeLength, Scan.breakLength_cons, if_neg hnot]
        split <;> simp
      have hother : c = '\r' → (d :: rest).head? ≠ some '\n' := fun hc hd =>
        hcrlf ⟨hc, Option.some.inj hd⟩
      rw [Scan.bodyLength_escape quote triple hother, hone]
      rfl

theorem eatEscape?_between :
    (between mark before ('\\' :: ahead)).eatEscape? =
      some (between mark (before ++ '\\' :: ahead.take (escapeLength ahead))
        (ahead.drop (escapeLength ahead))) := by
  have hbreak : (between mark (before ++ ['\\']) ahead).isBreakAt
      (between mark (before ++ ['\\']) ahead).pos = true ↔ 0 < Scan.breakLength ahead :=
    isBreakAt_split rfl
  simp only [eatEscape?]
  rw [advance_ascii (by decide)]
  split
  · next h =>
    have hpos := hbreak.1 h
    rw [eatBreak?_between hpos, escapeLength, Nat.max_eq_right hpos, List.append_assoc]
    rfl
  · next h =>
    have hzero : escapeLength ahead = 1 := by
      have hnot := mt hbreak.2 h
      unfold escapeLength
      omega
    rw [charHere?_between, Option.bind_eq_bind, Option.bind_some, endsHere_between, hzero]
    cases ahead with
    | nil => rfl
    | cons c rest =>
      rw [advanceCharacter_between, List.append_assoc]
      rfl

/-- Two more quotes behind the first. -/
theorem quotes_between {quote : Char} (hquote : Scan.isQuote quote = true) :
    ((between mark before (quote :: ahead)).charAt ((between mark before (quote :: ahead)).pos + 1) = quote ∧
      (between mark before (quote :: ahead)).charAt ((between mark before (quote :: ahead)).pos + 2) = quote) ↔
    ahead.take 2 = [quote, quote] := by
  have hascii := Scan.isAscii_of_isQuote hquote
  have hzero : quote ≠ '\x00' := by
    rintro rfl
    exact absurd hquote (by decide)
  rw [charAt_next hascii, front_eq_iff hascii hzero]
  constructor
  · rintro ⟨⟨rest, rfl⟩, hsecond⟩
    rw [charAt_next₂ hascii hascii, front_eq_iff hascii hzero] at hsecond
    obtain ⟨more, rfl⟩ := hsecond
    rfl
  · intro htake
    match ahead, htake with
    | [], htake => cases htake
    | [c], htake => cases htake
    | c :: d :: rest, htake =>
      cases htake
      refine ⟨⟨_, rfl⟩, ?_⟩
      rw [charAt_next₂ hascii hascii, front_ascii hascii]

/-- What is found behind some characters is found with them. -/
theorem found_grow (x rest : List Char) (answer : Nat × Bool) :
    some (answer.2, between mark (before ++ x ++ rest.take answer.1) (rest.drop answer.1)) =
      some ((Scan.bodyLength.grow x.length answer).2,
        between mark (before ++ (x ++ rest).take (Scan.bodyLength.grow x.length answer).1)
          ((x ++ rest).drop (Scan.bodyLength.grow x.length answer).1)) := by
  rw [Scan.bodyLength.grow, Nat.add_comm, List.take_length_add_append, List.drop_length_add_append,
    List.append_assoc]

/-- A view moves over three quotes. -/
theorem advance_three {c : Char} (hc : IsAscii c) {before text : List Char} :
    (between mark before (c :: c :: c :: text)).advance 3 = between mark (before ++ [c, c, c]) text := by
  rw [← advance_advance _ 1 2, ← advance_advance _ 1 1, advance_ascii hc, advance_ascii hc, advance_ascii hc]
  simp

/-- **The end of a literal's body.** -/
theorem literalBody?_between {quote : Char} (triple : Bool) (hquote : Scan.isQuote quote = true)
    (before text : List Char) :
    (between mark before text).literalBody? quote triple =
      some ((Scan.bodyLength quote triple text).2,
        between mark (before ++ text.take (Scan.bodyLength quote triple text).1)
          (text.drop (Scan.bodyLength quote triple text).1)) := by
  have hascii := Scan.isAscii_of_isQuote hquote
  rw [literalBody?_eq charHere?_between, endsHere_between]
  match text with
  | [] =>
    simp [Scan.bodyLength]
  | c :: rest =>
    have hbackslash : IsAscii '\\' := by decide
    simp only [List.isEmpty_cons, if_neg Bool.false_ne_true, front_cons_eq_iff hbackslash,
      front_cons_eq_iff hascii, front_uniform Scan.uniform_endsLine]
    by_cases hslash : c = '\\'
    · subst hslash
      rw [if_pos rfl, eatEscape?_between, Option.bind_some,
        literalBody?_between triple hquote _ (rest.drop (escapeLength rest)), bodyLength_backslash, found_grow,
        List.cons_append, List.take_append_drop]
    rw [if_neg hslash, Scan.bodyLength_cons quote triple hslash]
    by_cases hc : c = quote
    · subst hc
      rw [if_pos rfl, if_pos rfl, advance_ascii hascii]
      cases triple with
      | false => rfl
      | true =>
        simp only [Bool.not_true, if_neg Bool.false_ne_true, quotes_between hquote, if_pos]
        split
        · next hclosing =>
          have hrest : rest = c :: c :: rest.drop 2 := by
            rw [← List.take_append_drop 2 rest, hclosing]
            rfl
          rw [hrest, advance_three hascii]
          rfl
        · rw [literalBody?_between true hquote _ rest, found_grow]
          rfl
    · rw [if_neg hc, if_neg hc]
      split
      · simp
      · rw [advanceCharacter_between, literalBody?_between triple hquote _ rest, found_grow]
        rfl
termination_by text.length
decreasing_by
  · rw [List.length_drop, List.length_cons]
    omega
  · exact Nat.lt_succ_self _
  · exact Nat.lt_succ_self _

/-! ### Blocks -/

/-- A blank line is seen from the byte behind its indentation. -/
theorem isBlankLine_front (text : List Char) :
    (Scan.endsLine (front (text.dropWhile Scan.isGap)) || front (text.dropWhile Scan.isGap) == '\x00') =
      Scan.isBlankLine text := by
  unfold Scan.isBlankLine Scan.afterIndent
  cases text.dropWhile Scan.isGap with
  | nil => rfl
  | cons c rest =>
    have hzero : Uniform fun c => Scan.endsLine c || c == '\x00' := by
      refine uniform_of_ascii fun c hc => ?_
      rw [Bool.or_eq_true, beq_iff_eq] at hc
      rcases hc with hc | rfl
      · exact Scan.isAscii_of_endsLine hc
      · decide
    exact front_uniform hzero c rest

theorem isCommentLine_front (text : List Char) :
    (front (text.dropWhile Scan.isGap) == '#') = Scan.isCommentLine text := by
  unfold Scan.isCommentLine Scan.afterIndent
  cases text.dropWhile Scan.isGap with
  | nil => rfl
  | cons c rest =>
    rw [front_uniform (Utf8.uniform_beq (a := '#') (by decide))]
    rfl

/-- A line that cannot end a block is seen from its indentation and the byte behind that. -/
theorem isTentative_front {text line : List Char} {lines : List (List Char)}
    (h : Text.physicalLines text = line :: lines) (outer : Nat) (body : Option Nat) :
    (Scan.endsLine (front (text.dropWhile Scan.isGap)) || front (text.dropWhile Scan.isGap) == '\x00' ||
        front (text.dropWhile Scan.isGap) == '#' &&
          (decide (Scan.indentWidth text ≤ outer) || body.any (Scan.indentWidth text < ·))) =
      Scan.isTentative outer body line := by
  obtain ⟨hafter, hwidth⟩ := Scan.indentation_of_line h
  rw [isBlankLine_front, isCommentLine_front, Scan.isTentative, Scan.isBlankLine, Scan.isBlankLine,
    Scan.isCommentLine, Scan.isCommentLine, hafter, hwidth]

/-- **The end of a block.** -/
theorem regionEnd_split (outer stop : Nat) (body : Option Nat) (lines : List (List Char))
    {before text : List Char} (h : v.bytes = encode (before ++ text))
    (hlines : Text.physicalLines text = lines) :
    (v.regionEnd outer body stop (byteLength before)).1.isSome =
        (body.isSome || !(Scan.regionLines outer body lines).isEmpty) ∧
      (v.regionEnd outer body stop (byteLength before)).2 =
        if Scan.regionLines outer body lines = [] then stop
        else byteLength before + byteLength (Scan.regionLines outer body lines).flatten := by
  have htext := Text.flatten_physicalLines text
  rw [hlines] at htext
  have hsize := size_split h
  induction lines generalizing before text body stop with
  | nil =>
    subst htext
    rw [regionEnd, dif_neg (by rw [hsize]; simp)]
    simp [Scan.regionLines]
  | cons line lines ih =>
    obtain ⟨hne, -, hrest⟩ := Text.physicalLines_eq_cons hlines
    have hline := Text.firstLine_of_physicalLines hlines
    rw [List.flatten_cons] at htext
    have hpos : 0 < byteLength line :=
      Nat.lt_of_lt_of_le (List.length_pos_iff.2 hne) (length_le_byteLength line)
    have hinside : byteLength before < v.size := by
      rw [hsize, ← htext, byteLength_append]
      omega
    have hnext : v.lineEndFrom (byteLength before) = byteLength (before ++ line) := by
      rw [lineEndFrom_split h, hline, byteLength_append]
    have hbytes : v.bytes = encode ((before ++ line) ++ lines.flatten) := by
      rw [h, ← htext, List.append_assoc]
    have hsize' := size_split hbytes
    have hwidth : (text.takeWhile Scan.isGap).foldl Scan.widen 0 = Scan.indentWidth line :=
      (Scan.indentation_of_line hlines).2.symm
    have htentative := isTentative_front hlines outer body
    rw [← (Scan.indentation_of_line hlines).2] at htentative
    rw [regionEnd, dif_pos hinside]
    simp only [measureIndent_split h, hnext, hwidth, htentative]
    rw [Scan.regionLines]
    split
    · obtain ⟨hsome, hend⟩ := ih stop body hbytes hrest rfl hsize'
      rw [hsome, hend]
      cases hfound : Scan.regionLines outer body lines with
      | nil => simp
      | cons first found =>
        simp [Nat.add_assoc]
    · split
      · simp
      · obtain ⟨hsome, hend⟩ := ih (byteLength (before ++ line)) (some (body.getD (Scan.indentWidth line))) hbytes
          hrest rfl hsize'
        rw [hsome, hend]
        split
        · next hnil => simp [hnil]
        · simp [Nat.add_assoc]

end ByteView

end Quasiquote
