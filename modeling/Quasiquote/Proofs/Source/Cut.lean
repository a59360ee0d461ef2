import Quasiquote.Proofs.Source.Parallel

/-!
# Text behind the end of a line

No token is longer or shorter for what stands behind a line feed behind it, nor for whether its line has a
line feed at all. So a text that is cut off there is read like the whole, up to the token that takes the
line feed.

## Main Definitions

* `Scan.AtLineEnd` — a text that is over, or goes on with a line feed

## Main Statements

* `Scan.lexeme_before_end` — a lexeme is the same before any end of its line
* `Lexer.next_before_feed` — a token in front of a line feed is the same whatever follows that feed
* `Lexer.next_append_feed` — a line feed behind a text changes none of its tokens
* `Scan.lexeme_past_feed` — a token that goes on behind a line feed is a literal, and ends with its quote
-/

namespace Quasiquote

namespace Scan

/-- **A text at the end of its first line:** it is over, or goes on with a line feed. -/
def AtLineEnd (text : List Char) : Prop := ∀ c ∈ text.head?, c = '\n'

theorem atLineEnd_nil : AtLineEnd [] := by simp [AtLineEnd]

theorem atLineEnd_feed (text : List Char) : AtLineEnd ('\n' :: text) := by simp [AtLineEnd]

theorem AtLineEnd.eq_nil_or_feed {text : List Char} (h : AtLineEnd text) :
    text = [] ∨ ∃ more, text = '\n' :: more := by
  cases text with
  | nil => exact .inl rfl
  | cons c more =>
    obtain rfl := h c rfl
    exact .inr ⟨more, rfl⟩

section

variable {s r : List Char}

/-! ### Scanning in front of the end of a line -/

theorem takeWhile_before_end {q : Char → Bool} (hq : q '\n' = false) (u : List Char)
    (hs : AtLineEnd s) : (u ++ s).takeWhile q = u.takeWhile q := by
  induction u with
  | nil => obtain rfl | ⟨more, rfl⟩ := hs.eq_nil_or_feed <;> simp [hq]
  | cons c u ih => simp only [List.cons_append, List.takeWhile_cons, ih]

theorem any_head?_before_end {q : Char → Bool} (hq : q '\n' = false) (u : List Char)
    (hs : AtLineEnd s) : (u ++ s).head?.any q = u.head?.any q := by
  cases u with
  | nil => obtain rfl | ⟨more, rfl⟩ := hs.eq_nil_or_feed <;> simp [hq]
  | cons c u => rfl

/-- A text goes on alike before any end of its line. -/
theorem head?_before_end {u : List Char} {c : Char} (hr : AtLineEnd r) (hc : c ∈ (u ++ r).head?)
    (hne : c ≠ '\n') (s : List Char) : (u ++ s).head? = some c := by
  cases u with
  | nil => exact absurd (hr c hc) hne
  | cons d u => exact hc

theorem afterIndent_before_end (u : List Char) (hs : AtLineEnd s) :
    afterIndent (u ++ s) = (afterIndent u).or s.head? := by
  unfold afterIndent
  induction u with
  | nil => obtain rfl | ⟨more, rfl⟩ := hs.eq_nil_or_feed <;> rfl
  | cons c u ih =>
    simp only [List.cons_append, List.dropWhile_cons]
    split
    · exact ih
    · rfl

theorem isBlankLine_before_end (u : List Char) (hs : AtLineEnd s) :
    isBlankLine (u ++ s) = isBlankLine u := by
  unfold isBlankLine
  rw [afterIndent_before_end u hs]
  cases afterIndent u with
  | none => obtain rfl | ⟨more, rfl⟩ := hs.eq_nil_or_feed <;> rfl
  | some c => rfl

theorem isCommentLine_before_end (u : List Char) (hs : AtLineEnd s) :
    isCommentLine (u ++ s) = isCommentLine u := by
  unfold isCommentLine
  rw [afterIndent_before_end u hs]
  cases afterIndent u with
  | none => obtain rfl | ⟨more, rfl⟩ := hs.eq_nil_or_feed <;> rfl
  | some c => rfl

/-- A line break is the same before any line feed. -/
theorem breakLength_before_feed {u : List Char} (hs : AtLineEnd s) (hpos : 0 < breakLength (u ++ s))
    (r : List Char) : breakLength (u ++ '\n' :: r) = breakLength (u ++ s) := by
  cases u with
  | nil =>
    obtain rfl | ⟨more, rfl⟩ := hs.eq_nil_or_feed
    · cases hpos
    · rfl
  | cons c u =>
    rw [List.cons_append, breakLength_cons] at hpos
    rw [List.cons_append, List.cons_append, breakLength_cons, breakLength_cons]
    split at hpos
    · next hc => rw [if_pos hc, if_pos hc]
    split at hpos
    · next hc hcrlf =>
      have hhead : (u ++ '\n' :: r).head? = some '\n' := by
        cases u with
        | nil => rfl
        | cons d u => exact hcrlf.2
      rw [if_neg hc, if_neg hc, if_pos hcrlf, if_pos ⟨hcrlf.1, hhead⟩]
    · cases hpos

end

/-! ### Blanks -/

theorem head?_before_feed (u s r : List Char) :
    (u ++ '\n' :: s).head? = (u ++ '\n' :: r).head? := by
  cases u <;> rfl

/-- Text that begins with a line feed does so whatever follows another line feed. -/
theorem eq_feed_cons {u s r more : List Char} (h : u ++ '\n' :: r = '\n' :: more) :
    ∃ more', u ++ '\n' :: s = '\n' :: more' := by
  refine List.head?_eq_some_iff.1 ?_
  rw [head?_before_feed u s r, h]
  rfl

theorem eq_return_feed_cons {u s r more : List Char} (h : u ++ '\n' :: r = '\r' :: '\n' :: more) :
    ∃ more', u ++ '\n' :: s = '\r' :: '\n' :: more' := by
  cases u with
  | nil => simp at h
  | cons c u =>
    rw [List.cons_append, List.cons.injEq] at h
    obtain ⟨more', hmore⟩ := eq_feed_cons (s := s) h.2
    exact ⟨more', by rw [List.cons_append, h.1, hmore]⟩

/-- Blanks that end before a line feed are the same whatever follows it. -/
theorem blankLength_before_feed {u s : List Char} (r : List Char)
    (h : blankLength (u ++ '\n' :: s) ≤ u.length) :
    blankLength (u ++ '\n' :: r) = blankLength (u ++ '\n' :: s) := by
  generalize htext : u ++ '\n' :: s = text at h
  fun_induction blankLength text generalizing u with
  | case1 rest ih =>
    rcases u with _ | ⟨c, _ | ⟨d, u⟩⟩
    · simp at htext
    · simp at h
    · simp only [List.cons_append, List.cons.injEq] at htext
      obtain ⟨rfl, rfl, hrest⟩ := htext
      rw [List.cons_append, List.cons_append, blankLength_join, ih hrest (by simpa using h)]
  | case2 rest ih =>
    rcases u with _ | ⟨c, _ | ⟨d, _ | ⟨e, u⟩⟩⟩
    · simp at htext
    · simp at htext
    · simp at h
    · simp only [List.cons_append, List.cons.injEq] at htext
      obtain ⟨rfl, rfl, rfl, hrest⟩ := htext
      rw [List.cons_append, List.cons_append, List.cons_append, blankLength_joinCrlf,
        ih hrest (by simpa using h)]
  | case3 rest =>
    obtain ⟨more, hmore⟩ := eq_return_feed_cons (s := r) htext
    rw [hmore, blankLength_crlf]
  | case4 c rest hjoin hjoinCrlf hcrlf hc ih =>
    cases u with
    | nil =>
      simp only [List.nil_append, List.cons.injEq] at htext
      simp [← htext.1, isGap] at hc
    | cons d u =>
      simp only [List.cons_append, List.cons.injEq] at htext
      obtain ⟨rfl, rfl⟩ := htext
      rw [List.cons_append, blankLength_cons, if_pos hc, ih rfl (by simpa using h)]
      · exact fun _ hd hr => (eq_feed_cons hr).elim fun more => hjoin more hd
      · exact fun _ hd hr => (eq_return_feed_cons hr).elim fun more => hjoinCrlf more hd
      · exact fun _ hd hr => (eq_feed_cons hr).elim fun more => hcrlf more hd
  | case5 c rest hjoin hjoinCrlf hcrlf hc =>
    cases u with
    | nil => rfl
    | cons d u =>
      simp only [List.cons_append, List.cons.injEq] at htext
      obtain ⟨rfl, rfl⟩ := htext
      rw [List.cons_append, blankLength_cons, if_neg hc]
      · exact fun _ hd hr => (eq_feed_cons hr).elim fun more => hjoin more hd
      · exact fun _ hd hr => (eq_return_feed_cons hr).elim fun more => hjoinCrlf more hd
      · exact fun _ hd hr => (eq_feed_cons hr).elim fun more => hcrlf more hd
  | case6 => simp at htext

/-- No lexeme begins with a blank. -/
theorem not_startsLexeme_of_isGap {c : Char} (h : isGap c = true) : startsLexeme c = false := by
  simp only [isGap, Bool.or_eq_true, beq_iff_eq] at h
  rcases h with (rfl | rfl) | rfl <;> rfl

/-- No lexeme begins in what separates tokens. -/
theorem Separates.any_startsLexeme {text rest : List Char} (h : Separates text rest) :
    text.any startsLexeme = false := by
  induction h with
  | nil => rfl
  | gap hc _ ih => rw [List.any_cons, not_startsLexeme_of_isGap hc, ih]; rfl
  | carriageReturn _ _ ih => exact ih
  | join _ ih => exact ih
  | joinCrlf _ ih => exact ih

/-- Blanks do not go on behind the beginning of a lexeme. -/
theorem blankLength_append_of_any {u : List Char} (h : u.any startsLexeme = true) (s : List Char) :
    blankLength (u ++ s) = blankLength u := by
  have hrest {c : Char} {u : List Char} (hc : startsLexeme c = false)
      (h : (c :: u).any startsLexeme = true) : u.any startsLexeme = true := by
    rwa [List.any_cons, hc, Bool.false_or] at h
  have hhead {c : Char} {u more : List Char} (h : u.any startsLexeme = true)
      (hmore : u ++ s = c :: more) : ∃ u', u = c :: u' := by
    cases u with
    | nil => cases h
    | cons d u =>
      injection hmore with hd
      exact ⟨u, by rw [hd]⟩
  fun_induction blankLength u with
  | case1 rest ih =>
    rw [List.cons_append, List.cons_append, blankLength_join, ih (hrest rfl (hrest rfl h))]
  | case2 rest ih =>
    rw [List.cons_append, List.cons_append, List.cons_append, blankLength_joinCrlf,
      ih (hrest rfl (hrest rfl (hrest rfl h)))]
  | case3 rest => rfl
  | case4 c rest hjoin hjoinCrlf hcrlf hc ih =>
    have hblank : startsLexeme c = false := by
      rw [Bool.or_eq_true, beq_iff_eq] at hc
      rcases hc with hgap | rfl
      · exact not_startsLexeme_of_isGap hgap
      · rfl
    have hlater := hrest hblank h
    rw [List.cons_append, blankLength_cons, if_pos hc, ih hlater]
    · rintro _ rfl
      cases hc
    · rintro _ rfl
      cases hc
    · intro more hreturn hmore
      obtain ⟨rest, rfl⟩ := hhead hlater hmore
      exact hcrlf rest hreturn rfl
  | case5 c rest hjoin hjoinCrlf hcrlf hc =>
    rw [List.cons_append, blankLength_cons, if_neg hc]
    · rintro more rfl hmore
      obtain ⟨rest, rfl⟩ := hhead (hrest rfl h) hmore
      exact hjoin rest rfl rfl
    · rintro more rfl hmore
      obtain ⟨rest, rfl⟩ := hhead (hrest rfl h) hmore
      have hlater := hrest rfl (hrest rfl h)
      injection hmore with _ hfeed
      obtain ⟨rest, rfl⟩ := hhead hlater hfeed
      exact hjoinCrlf rest rfl rfl
    · rintro more rfl
      exact absurd rfl hc
  | case6 => cases h

/-- Text behind the end of a line is no part of its front. -/
theorem sameFront_before_end {y z s r : List Char} (hs : AtLineEnd s) (hr : AtLineEnd r)
    (hblanks : blankLength (y ++ (z ++ s)) ≤ y.length →
      blankLength (y ++ (z ++ r)) = blankLength (y ++ (z ++ s))) : SameFront y (z ++ s) (z ++ r) where
  gap := by simp only [← List.append_assoc, takeWhile_before_end (q := isGap) rfl _ hs,
    takeWhile_before_end (q := isGap) rfl _ hr]
  blankLine := by simp only [← List.append_assoc, isBlankLine_before_end _ hs, isBlankLine_before_end _ hr]
  commentLine := by
    simp only [← List.append_assoc, isCommentLine_before_end _ hs, isCommentLine_before_end _ hr]
  blanks := hblanks

/-- A text that is cut off behind a line feed has the same front. -/
theorem sameFront_before_feed (y z s r : List Char) : SameFront y (z ++ '\n' :: s) (z ++ '\n' :: r) := by
  refine sameFront_before_end (atLineEnd_feed s) (atLineEnd_feed r) fun h => ?_
  rw [← List.append_assoc] at h
  rw [← List.append_assoc, ← List.append_assoc]
  exact blankLength_before_feed r (Nat.le_trans h (by simp))

/-! ### Lexemes in front of the end of a line -/

/-- A number ends before the same character, whatever follows that character. -/
theorem numberLength_before_end {x s t : List Char} (hx : x ≠ [])
    (hhead : ∀ c ∈ t.head?, c ≠ '\n' → s.head? = some c)
    (hlength : numberLength (x ++ s) = x.length) : numberLength (x ++ t) = x.length := by
  obtain ⟨hexadecimal, hs⟩ := numberLength_append hx (fun c hc _ => hc) hlength
  obtain ⟨hexadecimal', ht⟩ := numberLength_append (r := t) hx
    (fun c hc hsign => hhead c hc (by rintro rfl; cases hsign)) hlength
  rw [ht]
  cases t with
  | nil => simp
  | cons c t =>
    have hstop : isNumberPart c = false := by
      rw [Bool.eq_false_iff]
      intro hpart
      have hnext := hhead c rfl (by rintro rfl; cases hpart)
      obtain ⟨s, rfl⟩ := List.head?_eq_some_iff.1 hnext
      have hpos := numberTail_pos hpart hexadecimal s
      omega
    rw [numberTail_eq_zero hstop, Nat.add_zero]

theorem feed_mem_take {u : List Char} {n : Nat} (h : u.length < n) (s : List Char) :
    '\n' ∈ (u ++ '\n' :: s).take n := by
  obtain ⟨m, hm⟩ : ∃ m, n - u.length = m + 1 := ⟨n - u.length - 1, by omega⟩
  rw [List.take_append, hm, List.take_succ_cons]
  simp

section

variable {s r : List Char}

/-- No operator reaches over the end of a line. -/
theorem take_notMem_past_end {words : List (List Char)} {n : Nat}
    (hwords : ∀ word ∈ words, word.length = n ∧ '\n' ∉ word) {u : List Char} (hu : u.length < n)
    (hs : AtLineEnd s) : (u ++ s).take n ∉ words := by
  intro hmem
  obtain ⟨hlength, hfeed⟩ := hwords _ hmem
  obtain rfl | ⟨more, rfl⟩ := hs.eq_nil_or_feed
  · simp only [List.append_nil, List.length_take] at hlength
    omega
  · exact hfeed (feed_mem_take hu more)

theorem take_mem_before_end {words : List (List Char)} {n : Nat}
    (hwords : ∀ word ∈ words, word.length = n ∧ '\n' ∉ word) (u : List Char) (hs : AtLineEnd s)
    (hr : AtLineEnd r) : (u ++ s).take n ∈ words ↔ (u ++ r).take n ∈ words := by
  by_cases hn : n ≤ u.length
  · rw [List.take_append_of_le_length hn, List.take_append_of_le_length hn]
  · exact iff_of_false (take_notMem_past_end hwords (by omega) hs)
      (take_notMem_past_end hwords (by omega) hr)

/-- The character behind an operator is a single byte, or it is none, before any end of the line. -/
theorem single_before_end (u : List Char) (hs : AtLineEnd s) :
    (∀ c ∈ (u ++ s).head?, c.utf8Size = 1) ↔ ∀ c ∈ u.head?, c.utf8Size = 1 := by
  cases u with
  | nil =>
    refine iff_of_true (fun c hc => ?_) (by simp)
    obtain rfl := hs c hc
    rfl
  | cons c u => rfl

theorem operatorLength_before_end (u : List Char) (hs : AtLineEnd s) (hr : AtLineEnd r) :
    operatorLength (u ++ s) = operatorLength (u ++ r) := by
  have hwords3 : ∀ word ∈ operators3, word.length = 3 ∧ '\n' ∉ word := by decide
  have hwords2 : ∀ word ∈ operators2, word.length = 2 ∧ '\n' ∉ word := by decide
  have hthree := take_mem_before_end hwords3 u hs hr
  have htwo : ((u ++ s).take 2 ∈ operators2 ∧ ∀ c ∈ ((u ++ s).drop 2).head?, c.utf8Size = 1) ↔
      (u ++ r).take 2 ∈ operators2 ∧ ∀ c ∈ ((u ++ r).drop 2).head?, c.utf8Size = 1 := by
    by_cases hu : 2 ≤ u.length
    · simp only [List.take_append_of_le_length hu, List.drop_append_of_le_length hu,
        single_before_end _ hs, single_before_end _ hr]
    · exact iff_of_false (fun h => take_notMem_past_end hwords2 (by omega) hs h.1)
        (fun h => take_notMem_past_end hwords2 (by omega) hr h.1)
  have hone {s : List Char} (hs : AtLineEnd s) :
      ((u ++ s).take 1).any operators1.contains = u.head?.any operators1.contains := by
    rw [any_take_one, any_head?_before_end (by decide) u hs]
  rw [operatorLength_eq, operatorLength_eq, hone hs, hone hr]
  simp only [hthree, htwo]

theorem nameLexeme_before_end {x z : List Char} {kind : Token.Kind} (hs : AtLineEnd s)
    (hr : AtLineEnd r) (h : nameLexeme (x ++ (z ++ s)) = some (kind, x.length)) :
    nameLexeme (x ++ (z ++ r)) = some (kind, x.length) := by
  have hword {s : List Char} (hs : AtLineEnd s) :
      (x ++ (z ++ s)).takeWhile isIdentPart = (x ++ z).takeWhile isIdentPart := by
    rw [← List.append_assoc, takeWhile_before_end (by decide) _ hs]
  have hle : ((x ++ z).takeWhile isIdentPart).length ≤ (x ++ z).length :=
    (List.takeWhile_sublist _).length_le
  -- what the letters are, and whether a quote follows, is seen in front of the end
  have hbehind {s : List Char} (hs : AtLineEnd s) :
      ((x ++ (z ++ s)).drop ((x ++ z).takeWhile isIdentPart).length).head?.any isQuote =
        ((x ++ z).drop ((x ++ z).takeWhile isIdentPart).length).head?.any isQuote := by
    rw [← List.append_assoc, List.drop_append_of_le_length hle, any_head?_before_end rfl _ hs]
  have hletters (s : List Char) :
      (x ++ (z ++ s)).take ((x ++ z).takeWhile isIdentPart).length =
        (x ++ z).take ((x ++ z).takeWhile isIdentPart).length := by
    rw [← List.append_assoc, List.take_append_of_le_length hle]
  unfold nameLexeme at h ⊢
  simp only [hword hs, hword hr, hletters, any_take_one, hbehind hs, hbehind hr] at h ⊢
  split at h
  · next hliteral =>
    rw [if_pos hliteral]
    have hlength := literalLexeme_length h
    refine literalLexeme_append (by omega) ?_ (fun c hc hquote => ?_) h
    · rw [hbehind hs]
      exact (Bool.and_eq_true_iff.1 hliteral).1
    · exact head?_before_end hr hc (by rintro rfl; cases hquote) s
  · next hliteral =>
    rwa [if_neg hliteral]

/-- **A lexeme in front of the end of a line** is the same before any such end. -/
theorem lexeme_before_end {x z : List Char} {kind : Token.Kind} (hs : AtLineEnd s) (hr : AtLineEnd r)
    (hx : x ≠ []) (h : lexeme (x ++ (z ++ s)) = some (kind, x.length)) :
    lexeme (x ++ (z ++ r)) = some (kind, x.length) := by
  obtain ⟨c, y, rfl⟩ := List.exists_cons_of_ne_nil hx
  have hdigit : (z ++ s).head?.any Char.isDigit = (z ++ r).head?.any Char.isDigit := by
    rw [any_head?_before_end (by decide) z hs, any_head?_before_end (by decide) z hr]
  have hnumber := startsNumber_append c y hdigit
  rw [List.cons_append, lexeme_cons] at h ⊢
  rw [List.cons_append, List.cons_append] at hnumber
  rw [← hnumber]
  split at h
  · next hc => rwa [if_pos hc]
  next hc =>
  rw [if_neg hc]
  split at h
  · next hc =>
    rw [if_pos hc]
    simp only [Option.some.injEq, Prod.mk.injEq] at h ⊢
    exact ⟨h.1, numberLength_before_end hx (fun d hd hne => head?_before_end hr hd hne s) h.2⟩
  next hc =>
  rw [if_neg hc]
  split at h
  · next hc =>
    rw [if_pos hc]
    refine literalLexeme_append (x := c :: y) (by simp) (by simpa using hc) (fun d hd hquote => ?_) h
    exact head?_before_end hr hd (by rintro rfl; cases hquote) s
  next hc =>
  rw [if_neg hc]
  split at h
  · next hc =>
    rw [if_pos hc]
    exact nameLexeme_before_end (x := c :: y) hs hr h
  next hc =>
  rw [if_neg hc]
  have hoperator := operatorLength_before_end (c :: y ++ z) hr hs
  rw [List.append_assoc, List.append_assoc, List.cons_append, List.cons_append] at hoperator
  rw [operatorLexeme, hoperator]
  exact h

/-- Behind a token, a line that goes on to a line feed may stand in the place of one that goes on alike.
Where the text is over, something has to be read. -/
theorem replaces_before_end {kind : Token.Kind} {length : Nat} {z : List Char} (hs : AtLineEnd s)
    (hlength : z ++ s = [] → length ≠ 0) (r : List Char) :
    Replaces kind length (z ++ s) (z ++ '\n' :: r) where
  nil hzero hnil := absurd hzero (hlength hnil)
  comment h := by
    rw [takeWhile_before_end (by decide) _ hs] at h
    rw [takeWhile_before_end (by decide) _ (atLineEnd_feed r), h]
  lineBreak x _ hpos := by
    rw [← List.append_assoc] at hpos ⊢
    rw [← List.append_assoc, breakLength_before_feed hs hpos]
  lexeme x hx hlength h := by
    subst hlength
    exact lexeme_before_end hs (atLineEnd_feed r) hx h

end

/-! ### Lexemes that go on behind a line feed -/

theorem getLast?_take_append (front : List Char) {rest : List Char} {n : Nat} {c : Char}
    (h : (rest.take n).getLast? = some c) :
    ((front ++ rest).take (n + front.length)).getLast? = some c := by
  rw [Nat.add_comm, List.take_length_add_append, List.getLast?_append, h]
  rfl

/-- The body of a literal ends with its quote. -/
theorem quote_of_bodyLength {quote : Char} {triple : Bool} {text : List Char} {n : Nat}
    (h : bodyLength quote triple text = (n, true)) : (text.take n).getLast? = some quote := by
  fun_induction bodyLength quote triple text generalizing n with
  | case1 rest ih =>
    obtain ⟨m, hm, rfl⟩ := grow_eq_closed h
    exact getLast?_take_append ['\\', '\r', '\n'] (ih hm)
  | case2 c rest hcrlf ih =>
    obtain ⟨m, hm, rfl⟩ := grow_eq_closed h
    exact getLast?_take_append ['\\', c] (ih hm)
  | case3 => simp at h
  | case4 rest htriple hclose =>
    cases h
    rw [List.take_succ_cons, hclose]
    rfl
  | case5 rest htriple hclose h1 h2 h3 ih =>
    obtain ⟨m, hm, rfl⟩ := grow_eq_closed h
    exact getLast?_take_append [quote] (ih hm)
  | case6 =>
    cases h
    rfl
  | case7 => simp at h
  | case8 c rest h1 h2 h3 hquote hend ih =>
    obtain ⟨m, hm, rfl⟩ := grow_eq_closed h
    exact getLast?_take_append [c] (ih hm)
  | case9 => simp at h

theorem quote_of_literalLength {quote : Char} {rest : List Char} {n : Nat}
    (h : literalLength (quote :: rest) = (n, true)) :
    ((quote :: rest).take n).getLast? = some quote := by
  rw [literalLength_cons] at h
  split at h
  · next htriple =>
    obtain ⟨m, hm, rfl⟩ := grow_eq_closed h
    have hsplit : quote :: rest = [quote, quote, quote] ++ rest.drop 2 := by
      conv_lhs => rw [← List.take_append_drop 2 rest, htriple]
      rfl
    rw [hsplit]
    exact getLast?_take_append [quote, quote, quote] (quote_of_bodyLength hm)
  · obtain ⟨m, hm, rfl⟩ := grow_eq_closed h
    exact getLast?_take_append [quote] (quote_of_bodyLength hm)

/-- A literal ends with its quote. -/
theorem quote_of_literalLexeme {text : List Char} {letters n : Nat} {kind : Token.Kind}
    (hquote : (text.drop letters).head?.any isQuote = true)
    (h : literalLexeme text letters = some (kind, n)) :
    ∃ quote, isQuote quote = true ∧ (text.take n).getLast? = some quote := by
  unfold literalLexeme at h
  simp only at h
  split at h
  · next hclosed =>
    simp only [Option.some.injEq, Prod.mk.injEq] at h
    obtain ⟨-, rfl⟩ := h
    cases hrest : text.drop letters with
    | nil => simp [hrest] at hquote
    | cons quote rest =>
      refine ⟨quote, by simpa [hrest] using hquote, ?_⟩
      have hletters : (text.take letters).length = letters := by
        have hlength := congrArg List.length hrest
        simp only [List.length_drop, List.length_cons, List.length_take] at hlength ⊢
        omega
      rw [hrest] at hclosed
      have hlast := getLast?_take_append (text.take letters)
        (quote_of_literalLength (Prod.ext rfl hclosed))
      rwa [← hrest, List.take_append_drop, hletters, hrest, Nat.add_comm] at hlast
  · simp at h

/-- **A lexeme that goes on behind a line feed** is a literal, and ends with its quote. -/
theorem lexeme_past_feed {u s : List Char} {kind : Token.Kind} {n : Nat}
    (h : lexeme (u ++ '\n' :: s) = some (kind, n)) (hn : u.length < n) :
    ∃ quote, isQuote quote = true ∧ ((u ++ '\n' :: s).take n).getLast? = some quote := by
  have hfeed : '\n' ∈ (u ++ '\n' :: s).take n := feed_mem_take hn s
  obtain ⟨c, text, htext⟩ := List.exists_cons_of_ne_nil (l := u ++ '\n' :: s) (by simp)
  rw [htext] at h hfeed ⊢
  rcases lexeme_cases h with ⟨hc, -, rfl⟩ | ⟨-, -, rfl⟩ | ⟨hc, hliteral⟩ | ⟨-, -, -, hname⟩ |
    ⟨-, -, -, -, rfl⟩
  · rw [hc] at hfeed
    simp at hfeed
  · exact absurd hfeed (feed_notMem_number _ _)
  · exact quote_of_literalLexeme (by simpa using hc) hliteral
  · unfold nameLexeme at hname
    simp only at hname
    split at hname
    · next hliteral =>
      refine quote_of_literalLexeme ?_ hname
      rw [Bool.and_eq_true, List.take_one] at hliteral
      generalize List.head? _ = first at hliteral ⊢
      cases first <;> simpa using hliteral.1
    · simp only [Option.some.injEq, Prod.mk.injEq] at hname
      obtain ⟨-, rfl⟩ := hname
      have hword := List.prefix_iff_eq_take.1 (List.takeWhile_prefix (l := c :: text) isIdentPart)
      rw [← hword] at hfeed
      exact absurd (List.all_eq_true.1 List.all_takeWhile _ hfeed) (by decide)
  · exact absurd ((operator_parts _).2 _ hfeed) (by decide)

end Scan

namespace Lexer

open Scan

variable {lx rest : Lexer} {t : Token} {z s : List Char}

/-- **A token in front of a line feed is the same whatever follows that feed.** -/
theorem next_before_feed {y : List Char} (hy : lx.ahead = y ++ rest.ahead)
    (hfeed : rest.ahead = z ++ '\n' :: s) (h : lx.next = (.ok t, rest)) (r b : List Char)
    (p : Position) :
    Repeats (z ++ '\n' :: r) (.ok t, rest) (lx.elsewhere b (y ++ (z ++ '\n' :: r)) p).next :=
  next_replaced hy (hfeed ▸ sameFront_before_feed y z s r)
    (hfeed ▸ replaces_before_end (atLineEnd_feed s) (by simp) r) h b p

/-- A step that takes no text at the end of a text passes over blanks only. -/
theorem any_startsLexeme_of_empty (h : lx.next = (.ok t, rest)) (hempty : t.text.length = 0)
    (hnil : rest.ahead = []) : lx.ahead.any startsLexeme = false := by
  obtain ⟨gap, hgap, htakes⟩ := separated_next h
  have htext : t.text.toList = [] := List.length_eq_zero_iff.1 (by simpa using hempty)
  have hall : lx.ahead = gap := by
    rw [htakes.moves.ahead, htext, hnil, List.append_nil, List.append_nil]
  rw [hall]
  exact hgap.any_startsLexeme

/-- **A line feed behind a text changes none of its tokens.** -/
theorem next_append_feed {y : List Char} (hy : lx.ahead = y ++ rest.ahead)
    (hsome : lx.ahead.any startsLexeme = true) (h : lx.next = (.ok t, rest)) (b : List Char)
    (p : Position) :
    Repeats (rest.ahead ++ ['\n']) (.ok t, rest)
      (lx.elsewhere b (lx.ahead ++ ['\n']) p).next := by
  have hfront : SameFront y (rest.ahead ++ []) (rest.ahead ++ ['\n']) := by
    refine sameFront_before_end atLineEnd_nil (atLineEnd_feed []) fun _ => ?_
    rw [List.append_nil, ← List.append_assoc, ← hy, blankLength_append_of_any hsome]
  have hreplaces : Replaces t.kind t.text.length (rest.ahead ++ []) (rest.ahead ++ ['\n']) := by
    refine replaces_before_end atLineEnd_nil (fun hnil hzero => ?_) []
    rw [any_startsLexeme_of_empty h hzero (by simpa using hnil)] at hsome
    cases hsome
  rw [List.append_nil] at hfront hreplaces
  have hrepeats := next_replaced hy hfront hreplaces h b p
  rwa [← List.append_assoc, ← hy] at hrepeats

end Lexer

end Quasiquote
