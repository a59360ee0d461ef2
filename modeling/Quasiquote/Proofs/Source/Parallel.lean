import Quasiquote.Proofs.Source.Boundary

/-!
# The same step in front of another text

A reader that is moved in front of another text reads the same token there, as long as that text begins
with the same indentation and the same blanks, and the token ends where it did.

## Main Definitions

* `Token.spelling` — the kind and the text of a token
* `Lexer.elsewhere` — a reader that knows the same, at another place
* `Scan.SameFront`, `Scan.Replaces` — what the other text has to agree in

## Main Statements

* `Lexer.next_replaced` — the same token is read in front of another text
* `Lexer.next_elsewhere` — the same token is read in front of a text that is alike
-/

namespace Quasiquote

namespace Scan

/-! ### Texts that are alike -/

theorem site_not_gap {c : Char} (hc : c = '[' ∨ c = 'w') : isGap c = false := by
  rcases hc with rfl | rfl <;> rfl

theorem not_gap_of_identPart {d : Char} (h : isIdentPart d = true) : isGap d = false := by
  rw [Bool.eq_false_iff]
  intro hd
  simp only [isGap, Bool.or_eq_true, beq_iff_eq] at hd
  rcases hd with (rfl | rfl) | rfl <;> revert h <;> decide

theorem not_gap_of_identStart (d : Char) (h : isIdentStart d = true) : isGap d = false :=
  not_gap_of_identPart (by rw [isIdentPart, h, Bool.true_or])

/-- Where no site begins, texts that are alike begin with the same character. -/
theorem Alike.uncons {c : Char} {s t : List Char} (h : Alike (c :: s) t) (hc : c ≠ '[' ∧ c ≠ 'w') :
    ∃ t', t = c :: t' ∧ Alike s t' := by
  cases h with
  | cons _ h => exact ⟨_, rfl, h⟩
  | site _ _ hsite => rcases hsite with rfl | rfl <;> simp at hc

/-- An identifier is no line end and joins no lines. -/
theorem head_ne_of_identStart {d : Char} (h : isIdentStart d = true) :
    d ≠ '\n' ∧ d ≠ '\r' ∧ d ≠ '\\' ∧ d ≠ '#' ∧ d ≠ '\x00' := by
  refine ⟨?_, ?_, ?_, ?_, ?_⟩ <;> rintro rfl <;> revert h <;> decide

/-- Where two texts are alike, the one begins with a line end exactly when the other does. -/
theorem Alike.head_iff {c : Char} (hc : c = '\n' ∨ c = '\r') {s t : List Char} (h : Alike s t) :
    s.head? = some c ↔ t.head? = some c := by
  cases h with
  | nil => rfl
  | cons => rfl
  | site s t hsite hd =>
    have hne := head_ne_of_identStart hd
    rcases hc with rfl | rfl <;> rcases hsite with rfl | rfl <;> simp [hne]

theorem blankLength_join (rest : List Char) :
    blankLength ('\\' :: '\n' :: rest) = blankLength rest + 2 := rfl

theorem blankLength_joinCrlf (rest : List Char) :
    blankLength ('\\' :: '\r' :: '\n' :: rest) = blankLength rest + 3 := rfl

theorem blankLength_crlf (rest : List Char) : blankLength ('\r' :: '\n' :: rest) = 0 := rfl

/-- A character that neither joins lines nor breaks one is blank by itself. -/
theorem blankLength_cons {c : Char} {rest : List Char}
    (hjoin : ∀ more, c = '\\' → rest = '\n' :: more → False)
    (hjoinCrlf : ∀ more, c = '\\' → rest = '\r' :: '\n' :: more → False)
    (hcrlf : ∀ more, c = '\r' → rest = '\n' :: more → False) :
    blankLength (c :: rest) = if isGap c || c == '\r' then blankLength rest + 1 else 0 := by
  rw [blankLength]
  · exact hjoin
  · exact hjoinCrlf
  · exact hcrlf

/-- Behind the same character, texts that are alike join or break the same lines. -/
theorem Alike.noJoin {c : Char} {s t : List Char} (h : Alike s t)
    (hjoin : ∀ more, c = '\\' → s = '\n' :: more → False)
    (hjoinCrlf : ∀ more, c = '\\' → s = '\r' :: '\n' :: more → False)
    (hcrlf : ∀ more, c = '\r' → s = '\n' :: more → False) :
    (∀ more, c = '\\' → t = '\n' :: more → False) ∧
      (∀ more, c = '\\' → t = '\r' :: '\n' :: more → False) ∧
      (∀ more, c = '\r' → t = '\n' :: more → False) := by
  have hfeed {more : List Char} (ht : t = '\n' :: more) : ∃ more', s = '\n' :: more' := by
    have hs := (h.head_iff (.inl rfl)).2 (by rw [ht]; rfl)
    exact List.head?_eq_some_iff.1 hs
  refine ⟨fun more hc ht => ?_, fun more hc ht => ?_, fun more hc ht => ?_⟩
  · obtain ⟨_, hs⟩ := hfeed ht
    exact hjoin _ hc hs
  · subst ht
    cases h with
    | @cons _ s _ h =>
      obtain ⟨more', rfl⟩ := List.head?_eq_some_iff.1 ((h.head_iff (.inl rfl)).2 rfl)
      exact hjoinCrlf more' hc rfl
    | site s t hsite hd => exact absurd hd (by decide)
  · obtain ⟨_, hs⟩ := hfeed ht
    exact hcrlf _ hc hs

/-- Texts that are alike have the same blanks at their beginnings. -/
theorem Alike.blankLength {s t : List Char} (h : Alike s t) : blankLength t = blankLength s := by
  fun_induction Scan.blankLength s generalizing t with
  | case1 rest ih =>
    obtain ⟨t₁, rfl, h₁⟩ := h.uncons (by decide)
    obtain ⟨t₂, rfl, h₂⟩ := h₁.uncons (by decide)
    rw [blankLength_join, ih h₂]
  | case2 rest ih =>
    obtain ⟨t₁, rfl, h₁⟩ := h.uncons (by decide)
    obtain ⟨t₂, rfl, h₂⟩ := h₁.uncons (by decide)
    obtain ⟨t₃, rfl, h₃⟩ := h₂.uncons (by decide)
    rw [blankLength_joinCrlf, ih h₃]
  | case3 rest =>
    obtain ⟨t₁, rfl, h₁⟩ := h.uncons (by decide)
    obtain ⟨t₂, rfl, h₂⟩ := h₁.uncons (by decide)
    rw [blankLength_crlf]
  | case4 c rest hjoin hjoinCrlf hcrlf hc ih =>
    obtain ⟨t₁, rfl, h₁⟩ := h.uncons (by constructor <;> rintro rfl <;> simp [isGap] at hc)
    obtain ⟨hjoin', hjoinCrlf', hcrlf'⟩ := h₁.noJoin hjoin hjoinCrlf hcrlf
    rw [blankLength_cons hjoin' hjoinCrlf' hcrlf', if_pos hc, ih h₁]
  | case5 c rest hjoin hjoinCrlf hcrlf hc =>
    -- the blanks end at `c`, and at what stands there instead if `c` begins a site
    cases h with
    | cons _ h =>
      obtain ⟨hjoin', hjoinCrlf', hcrlf'⟩ := h.noJoin hjoin hjoinCrlf hcrlf
      rw [blankLength_cons hjoin' hjoinCrlf' hcrlf', if_neg hc]
    | site s t hsite hd =>
      have hne := head_ne_of_identStart hd
      rw [blankLength_cons (by simp [hne]) (by simp [hne]) (by simp [hne]),
        if_neg (by simp [not_gap_of_identStart _ hd, hne])]
  | case6 =>
    cases h
    rfl

theorem breakLength_cons (c : Char) (rest : List Char) :
    breakLength (c :: rest) =
      if c = '\n' then 1 else if c = '\r' ∧ rest.head? = some '\n' then 2 else 0 := by
  unfold breakLength
  split
  · simp_all
  · simp_all
  · next hfeed hcrlf =>
    rw [if_neg fun hc => hfeed rest (by rw [hc]), if_neg]
    rintro ⟨rfl, hhead⟩
    obtain ⟨more, rfl⟩ := List.head?_eq_some_iff.1 hhead
    exact hcrlf more rfl

/-- Texts that are alike begin with the same line break. -/
theorem Alike.breakLength {s t : List Char} (h : Alike s t) : breakLength t = breakLength s := by
  cases h with
  | nil => rfl
  | cons c h => simp only [breakLength_cons, h.head_iff (.inl rfl)]
  | site s t hsite hd =>
    have hne := head_ne_of_identStart hd
    rw [breakLength_cons, breakLength_cons]
    rcases hsite with rfl | rfl <;> simp [hne]

theorem breakLength_le (text : List Char) : Scan.breakLength text ≤ text.length := by
  unfold Scan.breakLength
  split <;> simp

theorem blankLength_le (text : List Char) : Scan.blankLength text ≤ text.length := by
  fun_induction Scan.blankLength text <;> simp_all

/-! ### Lines that are alike -/

/-- Texts that are alike begin with the same indentation. -/
theorem Alike.takeWhile_gap {s t : List Char} (h : Alike s t) :
    t.takeWhile isGap = s.takeWhile isGap := by
  induction h with
  | nil => rfl
  | cons c h ih => simp only [List.takeWhile_cons, ih]
  | site s t hsite hd =>
    simp [site_not_gap hsite, not_gap_of_identStart _ hd]

theorem Alike.dropWhile_gap {s t : List Char} (h : Alike s t) :
    Alike (s.dropWhile isGap) (t.dropWhile isGap) := by
  induction h with
  | nil => exact .nil
  | cons c h ih =>
    simp only [List.dropWhile_cons]
    split
    · exact ih
    · exact h.cons c
  | site s t hsite hd =>
    simpa [site_not_gap hsite, not_gap_of_identStart _ hd] using .site s t hsite hd

theorem Alike.indentWidth {s t : List Char} (h : Alike s t) : indentWidth t = indentWidth s := by
  rw [Scan.indentWidth, Scan.indentWidth, h.takeWhile_gap]

theorem Alike.isBlankLine {s t : List Char} (h : Alike s t) : isBlankLine t = isBlankLine s := by
  have hrest := h.dropWhile_gap
  unfold Scan.isBlankLine afterIndent
  generalize s.dropWhile isGap = s', t.dropWhile isGap = t' at hrest ⊢
  cases hrest with
  | nil => rfl
  | cons => rfl
  | site s t hsite hd =>
    have hne := head_ne_of_identStart hd
    rcases hsite with rfl | rfl <;> simp [endsLine, hne]

theorem Alike.isCommentLine {s t : List Char} (h : Alike s t) :
    isCommentLine t = isCommentLine s := by
  have hrest := h.dropWhile_gap
  unfold Scan.isCommentLine afterIndent
  generalize s.dropWhile isGap = s', t.dropWhile isGap = t' at hrest ⊢
  cases hrest with
  | nil => rfl
  | cons => rfl
  | site s t hsite hd =>
    have hne := head_ne_of_identStart hd
    rcases hsite with rfl | rfl <;> simp [hne]

theorem Follows.alike {kind : Token.Kind} {length : Nat} {s t : List Char}
    (h : Follows kind length s t) : Alike s t := by
  cases h with
  | nil => exact .nil
  | cons c h => exact h.cons c
  | site s t hsite hd _ => exact .site s t hsite hd

/-! ### What another text has to agree in -/

/-- **Texts that go on behind `y` with the same front:** with `y` before them, they begin with the same
indentation, and with the same blanks if these lie in `y`. -/
structure SameFront (y s t : List Char) : Prop where
  gap : (y ++ t).takeWhile isGap = (y ++ s).takeWhile isGap
  blankLine : isBlankLine (y ++ t) = isBlankLine (y ++ s)
  commentLine : isCommentLine (y ++ t) = isCommentLine (y ++ s)
  blanks : blankLength (y ++ s) ≤ y.length → blankLength (y ++ t) = blankLength (y ++ s)

theorem SameFront.indentWidth {y s t : List Char} (h : SameFront y s t) :
    indentWidth (y ++ t) = indentWidth (y ++ s) := by
  rw [Scan.indentWidth, Scan.indentWidth, h.gap]

theorem Alike.sameFront {s t : List Char} (h : Alike s t) (y : List Char) : SameFront y s t where
  gap := (h.append y).takeWhile_gap
  blankLine := (h.append y).isBlankLine
  commentLine := (h.append y).isCommentLine
  blanks := fun _ => (h.append y).blankLength

/-- **A text that may stand in the place of another** behind a token of some kind and length: the token
ends before it as well. Only a token without a text can stand at the end of the text. -/
structure Replaces (kind : Token.Kind) (length : Nat) (s t : List Char) : Prop where
  nil : length = 0 → s = [] → t = []
  comment : s.takeWhile (fun c => !endsLine c) = [] → t.takeWhile (fun c => !endsLine c) = []
  lineBreak : ∀ x, x ≠ [] → 0 < breakLength (x ++ s) → breakLength (x ++ t) = breakLength (x ++ s)
  lexeme : ∀ x, x ≠ [] → x.length = length → lexeme (x ++ s) = some (kind, length) →
    lexeme (x ++ t) = some (kind, length)

/-- A comment ends at a line end, and no site begins with one. -/
theorem Alike.comment {s t : List Char} (h : Alike s t)
    (hnone : s.takeWhile (fun c => !endsLine c) = []) :
    t.takeWhile (fun c => !endsLine c) = [] := by
  cases h with
  | nil => rfl
  | cons c hst =>
    rw [List.takeWhile_cons] at hnone ⊢
    split at hnone
    · simp at hnone
    · next hc => rw [if_neg hc]
  | site s t hsite _ => rcases hsite with rfl | rfl <;> simp [endsLine] at hnone

theorem Follows.replaces {kind : Token.Kind} {length : Nat} {s t : List Char}
    (h : Follows kind length s t) : Replaces kind length s t where
  nil _ hs := by
    subst hs
    cases h
    rfl
  comment := h.alike.comment
  lineBreak x _ _ := (h.alike.append x).breakLength
  lexeme x hx hlength hlexeme := by
    subst hlength
    exact lexeme_append h hx hlexeme

end Scan

/-- What a token says: its kind and its text. -/
abbrev Spelling := Token.Kind × String

instance : LawfulBEq Spelling := Prod.instLawfulBEq

/-- The kind and the text of a token. -/
def Token.spelling (t : Token) : Spelling := (t.kind, t.text)

namespace Lexer

open Scan

/-- A reader that knows the same about lines, at another place. -/
def elsewhere (lx : Lexer) (behind ahead : List Char) (here : Position) : Lexer :=
  { lx with behind, ahead, here }

@[simp] theorem elsewhere_ahead (lx : Lexer) (b A : List Char) (p : Position) :
    (lx.elsewhere b A p).ahead = A := rfl

@[simp] theorem elsewhere_indents (lx : Lexer) (b A : List Char) (p : Position) :
    (lx.elsewhere b A p).indents = lx.indents := rfl

@[simp] theorem elsewhere_indent (lx : Lexer) (b A : List Char) (p : Position) :
    (lx.elsewhere b A p).indent = lx.indent := rfl

/-- Motion changes the place only. -/
theorem elsewhere_advance (lx : Lexer) (b A : List Char) (p : Position) (n : Nat) :
    (lx.elsewhere b A p).advance n =
      lx.elsewhere ((A.take n).reverse ++ b) (A.drop n) (p.across (A.take n)) := rfl

/-- **A step that is repeated at another place.** The second step gives a token spelled like that of
the first, and stands before `T` then, knowing the same about lines. -/
def Repeats (T : List Char) (step step' : Step) : Prop :=
  ∃ t t' rest b p, step = (.ok t, rest) ∧ step' = (.ok t', rest.elsewhere b T p) ∧
    t'.spelling = t.spelling

section

variable {lx rest : Lexer} {t : Token} {y T : List Char}

/-- Behind a stretch of `n` characters, a text that begins with these characters goes on as it
pleases. -/
theorem append_of_drop {A : List Char} {n : Nat} (hn : n ≤ A.length) (hy : A = y ++ A.drop n) :
    (y ++ T).drop n = T ∧ (y ++ T).take n = A.take n := by
  have hlen : y.length = n := by
    have := congrArg List.length hy
    simp at this
    omega
  subst hlen
  refine ⟨List.drop_left, ?_⟩
  rw [List.take_left, hy, List.take_left]

/-- A token of the same characters is spelled the same. -/
theorem spelling_token {lx' : Lexer} (kind : Token.Kind) {n : Nat}
    (h : lx'.ahead.take n = lx.ahead.take n) :
    (lx'.token kind n).spelling = (lx.token kind n).spelling := by
  simp [Token.spelling, token, h]

/-- **The same indentation in front of another text.** -/
theorem indentation_elsewhere (hy : lx.ahead = y ++ rest.ahead) (hsame : SameFront y rest.ahead T)
    (h : lx.indentation = some (.ok t, rest)) (b : List Char) (p : Position) :
    ∃ step, (lx.elsewhere b (y ++ T) p).indentation = some step ∧
      Repeats T (.ok t, rest) step := by
  have hgap : lx.gapLength ≤ lx.ahead.length := (List.takeWhile_sublist _).length_le
  have hgap' : (lx.elsewhere b (y ++ T) p).gapLength = lx.gapLength := by
    rw [gapLength, gapLength, elsewhere_ahead, hsame.gap, hy]
  have hnone : lx.indentation ≠ none := by simp [h]
  rw [Ne, indentation_eq_none_iff, not_or, not_or] at hnone
  obtain ⟨hblank, hcomment, -⟩ := hnone
  have heq := indentation_eq (lx.elsewhere b (y ++ T) p)
  simp only [elsewhere_ahead, elsewhere_indent, hsame.blankLine, hsame.commentLine,
    hsame.indentWidth, ← hy, hgap', hblank, hcomment, Bool.or_self, Bool.false_eq_true, if_false]
    at heq
  rcases indentation_cases h with ⟨hdeeper, rfl, rfl⟩ | ⟨hless, hlevel, rfl, rfl⟩
  · obtain ⟨hdrop, htake⟩ := append_of_drop (T := T) hgap hy
    rw [if_pos hdeeper, elsewhere_advance, hdrop] at heq
    exact ⟨_, heq, _, _, _, _, _, rfl, rfl, spelling_token _ htake⟩
  · obtain ⟨hdrop, -⟩ := append_of_drop (T := T) hgap hy
    have hdedented : (lx.elsewhere b (y ++ T) p).dedented =
        lx.dedented.elsewhere (((y ++ T).take lx.gapLength).reverse ++ b) T
          (p.across ((y ++ T).take lx.gapLength)) := by
      unfold dedented
      rw [hgap', elsewhere_advance, hdrop, elsewhere_ahead, hsame.indentWidth, ← hy]
      rfl
    rw [if_neg (by omega), if_pos hless, hdedented, elsewhere_indent, if_pos hlevel] at heq
    exact ⟨_, heq, _, _, _, _, _, rfl, rfl, spelling_token _ rfl⟩

theorem endOfSource_elsewhere (lx : Lexer) (b T : List Char) (p : Position) :
    Repeats T lx.endOfSource (lx.elsewhere b T p).endOfSource := by
  unfold endOfSource
  by_cases hcontent : lx.lineHasContent = true
  · rw [if_pos hcontent, if_pos (show (lx.elsewhere b T p).lineHasContent = true from hcontent)]
    exact ⟨_, _, _, _, _, rfl, rfl, spelling_token _ rfl⟩
  rw [if_neg hcontent, if_neg (show ¬ (lx.elsewhere b T p).lineHasContent = true from hcontent),
    elsewhere_indents]
  split
  · exact ⟨_, _, _, _, _, rfl, rfl, spelling_token _ rfl⟩
  · exact ⟨_, _, _, _, _, rfl, rfl, spelling_token _ rfl⟩

/-- A run of characters that ends where `s` begins also ends where `t` begins, if `t` does not begin
with one more such character. -/
theorem length_takeWhile_append {q : Char → Bool} {x s t : List Char}
    (hst : s.takeWhile q = [] → t.takeWhile q = [])
    (h : ((x ++ s).takeWhile q).length = x.length) :
    ((x ++ t).takeWhile q).length = x.length := by
  rw [List.takeWhile_append] at h ⊢
  split at h
  · next hall =>
    have hs : s.takeWhile q = [] := by
      rw [List.length_append] at h
      exact List.length_eq_zero_iff.1 (by omega)
    rw [if_pos hall, hst hs, List.append_nil]
  · next hpart => exact absurd h hpart

theorem comment_elsewhere {x : List Char} (hx : lx.ahead = x ++ rest.ahead)
    (hstop : rest.ahead.takeWhile (fun c => !endsLine c) = [] →
      T.takeWhile (fun c => !endsLine c) = [])
    (h : lx.comment = (.ok t, rest)) (b : List Char) (p : Position) :
    Repeats T (.ok t, rest) (lx.elsewhere b (x ++ T) p).comment := by
  cases h
  have hn : (lx.ahead.takeWhile fun c => !endsLine c).length ≤ lx.ahead.length :=
    (List.takeWhile_sublist _).length_le
  obtain ⟨hdrop, htake⟩ := append_of_drop (T := T) hn hx
  have hlen : (lx.ahead.takeWhile fun c => !endsLine c).length = x.length := by
    have := congrArg List.length hx
    simp at this
    omega
  have hlen' : ((x ++ T).takeWhile fun c => !endsLine c).length = x.length :=
    length_takeWhile_append hstop (hx ▸ hlen)
  unfold comment
  simp only [elsewhere_ahead, elsewhere_advance, hlen', ← hlen, hdrop]
  exact ⟨_, _, _, _, _, rfl, rfl, spelling_token _ htake⟩

theorem lineBreak_elsewhere {x : List Char} (hx : lx.ahead = x ++ rest.ahead)
    (hsame : Scan.breakLength (x ++ T) = Scan.breakLength lx.ahead)
    (h : lx.lineBreak = (.ok t, rest)) (b : List Char) (p : Position) :
    Repeats T (.ok t, rest) (lx.elsewhere b (x ++ T) p).lineBreak := by
  cases h
  have hn : Scan.breakLength lx.ahead ≤ lx.ahead.length := breakLength_le _
  obtain ⟨hdrop, htake⟩ := append_of_drop (T := T) hn hx
  unfold lineBreak
  simp only [elsewhere_ahead, elsewhere_advance, hsame, hdrop]
  exact ⟨_, _, _, _, _, rfl, rfl, spelling_token _ htake⟩

/-- Behind the blanks, what is left of the text that is read stands before `T`. -/
theorem pastBlanks_elsewhere {x : List Char}
    (hsame : Scan.blankLength (y ++ T) = Scan.blankLength lx.ahead)
    (hy : y = lx.ahead.take (Scan.blankLength lx.ahead) ++ x) (b : List Char) (p : Position) :
    ∃ b' p', (lx.elsewhere b (y ++ T) p).pastBlanks = lx.pastBlanks.elsewhere b' (x ++ T) p' := by
  have hdrop : (y ++ T).drop (Scan.blankLength lx.ahead) = x ++ T := by
    rw [hy, List.append_assoc]
    exact (append_of_drop (blankLength_le _) (List.take_append_drop _ _).symm).1
  refine ⟨((y ++ T).take (Scan.blankLength lx.ahead)).reverse ++ b,
    p.across ((y ++ T).take (Scan.blankLength lx.ahead)), ?_⟩
  rw [pastBlanks, elsewhere_ahead, hsame, elsewhere_advance, hdrop]
  rfl

/-- A lexeme is the same lexeme before any text that may stand in the place of what follows it. -/
theorem lexemeStep_elsewhere {x text : List Char} {c : Char} {kind : Token.Kind} {n : Nat}
    (hx : lx.ahead = x ++ rest.ahead) (hcons : lx.ahead = c :: text)
    (hlexeme : lexeme (c :: text) = some (kind, n))
    (h : lx.lexemeStep c kind n = (.ok t, rest))
    (hT : Replaces t.kind t.text.length rest.ahead T) (b : List Char) (p : Position) :
    ∃ text', x ++ T = c :: text' ∧ lexeme (c :: text') = some (kind, n) ∧
      Repeats T (.ok t, rest) ((lx.elsewhere b (x ++ T) p).lexemeStep c kind n) := by
  cases h
  -- the lexeme is all of `x`
  rw [← hcons] at hlexeme
  have hn := lexeme_length hlexeme
  obtain ⟨hdrop, htake⟩ := append_of_drop (T := T) hn.2 hx
  have hlength : n = x.length := by
    have := congrArg List.length hx
    simp at this
    omega
  subst hlength
  have htext : (lx.token kind x.length).text.length = x.length := by
    simp [token, hn.2]
  rw [htext] at hT
  obtain ⟨d, x, rfl⟩ := List.exists_cons_of_ne_nil (List.ne_nil_of_length_pos hn.1)
  have hsame := hT.lexeme (d :: x) (by simp) rfl (hx ▸ hlexeme)
  obtain rfl : d = c := by
    rw [hx, List.cons_append] at hcons
    injection hcons
  refine ⟨x ++ T, rfl, hsame, ?_⟩
  unfold lexemeStep
  rw [elsewhere_advance, hdrop]
  exact ⟨_, _, _, _, _, rfl, rfl, spelling_token _ htake⟩

/-- What a step takes away from a text is not empty. -/
theorem ne_nil_of_drop {A x : List Char} {n : Nat} (hn : 0 < n) (hA : A ≠ [])
    (hx : A = x ++ A.drop n) : x ≠ [] := by
  rintro rfl
  have hpos := List.length_pos_iff.2 hA
  have hlength := congrArg List.length hx
  simp only [List.nil_append, List.length_drop] at hlength
  omega

/-- **The same token of the line in front of another text.** -/
theorem lineToken_elsewhere (hy : lx.ahead = y ++ rest.ahead) (hsame : SameFront y rest.ahead T)
    (hT : Replaces t.kind t.text.length rest.ahead T) (h : lx.lineToken = (.ok t, rest))
    (b : List Char) (p : Position) :
    Repeats T (.ok t, rest) (lx.elsewhere b (y ++ T) p).lineToken := by
  -- the token's text is what is left of `y` behind the blanks
  obtain ⟨x, hword⟩ : ∃ x, y = lx.ahead.take (Scan.blankLength lx.ahead) ++ x :=
    ⟨_, List.append_cancel_right (hy.symm.trans (takes_lineToken h).moves.ahead)⟩
  have hx : lx.pastBlanks.ahead = x ++ rest.ahead := by
    have hsplit := (List.take_append_drop (Scan.blankLength lx.ahead) lx.ahead).trans hy
    rw [hword, List.append_assoc] at hsplit
    exact List.append_cancel_left hsplit
  have hblanks : Scan.blankLength (y ++ T) = Scan.blankLength lx.ahead := by
    have hle : Scan.blankLength (y ++ rest.ahead) ≤ y.length := by
      have hlength := congrArg List.length hword
      have hbound := blankLength_le lx.ahead
      rw [List.length_append, List.length_take, Nat.min_eq_left hbound] at hlength
      rw [← hy]
      omega
    rw [hsame.blanks hle, hy]
  obtain ⟨b', p', hpast⟩ := pastBlanks_elsewhere hblanks hword b p
  rcases lineToken_cases h with ⟨hnil, hend⟩ | ⟨text, hcons, hcomment⟩ | ⟨c, text, hcons, hc, hbreak⟩ |
    ⟨c, _, kind, n, hcons, hlexeme, hstep⟩
  · have hnone : x = [] ∧ rest.ahead = [] := by simpa [hx] using hnil
    have hempty : t.text.length = 0 := by
      rcases endOfSource_cases hend with ⟨-, rfl, -⟩ | ⟨-, -, rfl, -⟩ | ⟨-, -, rfl, -⟩ <;> rfl
    have hT' : T = [] := hT.nil hempty hnone.2
    rw [lineToken_nil (by rw [hpast, hnone.1, hT']; rfl), hpast, hnone.1, hT', ← hend]
    exact endOfSource_elsewhere _ _ _ _
  · have hne : x ≠ [] := by
      cases hcomment
      exact ne_nil_of_drop (by rw [hcons]; simp [endsLine]) (by simp [hcons]) hx
    obtain ⟨d, x', rfl⟩ := List.exists_cons_of_ne_nil hne
    obtain rfl : d = '#' := by rw [hx] at hcons; injection hcons
    rw [lineToken_comment (by rw [hpast]; rfl), hpast]
    exact comment_elsewhere hx hT.comment hcomment _ _
  · have hpos : 0 < Scan.breakLength lx.pastBlanks.ahead := breakLength_drop_blankLength hcons hc
    have hne : x ≠ [] := by
      cases hbreak
      exact ne_nil_of_drop hpos (by simp [hcons]) hx
    obtain ⟨d, x', rfl⟩ := List.exists_cons_of_ne_nil hne
    obtain rfl : d = c := by rw [hx] at hcons; injection hcons
    rw [lineToken_lineBreak (by rw [hpast]; rfl) hc, hpast]
    exact lineBreak_elsewhere hx (by rw [hT.lineBreak _ hne (hx ▸ hpos), hx]) hbreak _ _
  · obtain ⟨text, htext, hsameLexeme, hrepeats⟩ :=
      lexemeStep_elsewhere hx hcons hlexeme hstep hT b' p'
    rw [lineToken_of_lexeme (by rw [hpast]; exact htext) hsameLexeme, hpast]
    exact hrepeats

/-- A reader that is at a token is at one in front of any text with the same front. -/
theorem AtToken.replaced {s : List Char} (hat : lx.AtToken) (hy : lx.ahead = y ++ s)
    (hsame : SameFront y s T) (b : List Char) (p : Position) :
    (lx.elsewhere b (y ++ T) p).AtToken := by
  refine ⟨hat.1, fun hstart hdepth => ?_⟩
  have hnone := hat.2 hstart hdepth
  rw [indentation_eq_none_iff] at hnone ⊢
  have hy' : lx.onLine.ahead = y ++ s := hy
  rw [hy'] at hnone
  rcases hnone with hblank | hcomment | hwidth
  · exact .inl (hsame.blankLine.trans hblank)
  · exact .inr (.inl (hsame.commentLine.trans hcomment))
  · exact .inr (.inr (hsame.indentWidth.trans hwidth))

theorem AtToken.elsewhere {A : List Char} (hat : lx.AtToken) (hsame : Alike lx.ahead A)
    (b : List Char) (p : Position) : (lx.elsewhere b A p).AtToken :=
  hat.replaced (y := []) rfl (hsame.sameFront []) b p

/-- **The same token in front of another text.** The reader stands before `y` and `T`, where `y` is what
it reads; `T` may stand in the place of what follows. -/
theorem next_replaced (hy : lx.ahead = y ++ rest.ahead) (hsame : SameFront y rest.ahead T)
    (hT : Replaces t.kind t.text.length rest.ahead T) (h : lx.next = (.ok t, rest))
    (b : List Char) (p : Position) :
    Repeats T (.ok t, rest) (lx.elsewhere b (y ++ T) p).next := by
  have hy' : lx.onLine.ahead = y ++ rest.ahead := hy
  rcases lx.next_cases with hpending | ⟨hpending, hstart, hdepth, step, hstep⟩ | hat
  · have hpending' : 0 < (lx.elsewhere b (y ++ T) p).pendingDedents := hpending
    rw [next_of_pending hpending] at h
    rw [next_of_pending hpending']
    -- a dedent that is due takes no text
    cases h
    have hnone : y = [] := List.append_left_eq_self.1 hy.symm
    subst hnone
    exact ⟨_, _, _, _, _, rfl, rfl, spelling_token _ rfl⟩
  · rw [next_of_indentation hpending hstart hdepth hstep] at h
    subst h
    obtain ⟨step', hstep', hrepeats⟩ := indentation_elsewhere hy' hsame hstep b p
    have hnext : (lx.elsewhere b (y ++ T) p).next = step' :=
      next_of_indentation hpending hstart hdepth hstep'
    rwa [hnext]
  · rw [next_of_atToken hat] at h
    rw [next_of_atToken (hat.replaced hy hsame b p)]
    exact lineToken_elsewhere hy' hsame hT h b p

/-- **The same token in front of a text that is alike.** The token is spelled the same, unless it clings
to the identifier that the text begins with. -/
theorem next_elsewhere (hy : lx.ahead = y ++ rest.ahead)
    (hT : Follows t.kind t.text.length rest.ahead T) (h : lx.next = (.ok t, rest))
    (b : List Char) (p : Position) :
    Repeats T (.ok t, rest) (lx.elsewhere b (y ++ T) p).next :=
  next_replaced hy (hT.alike.sameFront y) hT.replaces h b p

end

end Lexer

end Quasiquote
