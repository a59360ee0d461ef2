import Quasiquote.Proofs.Source.Cut
import Quasiquote.Proofs.Source.Tiling

/-!
# A text between brackets on lines of their own

A text that is put between a line with an opening bracket and one with a closing bracket. As long as the
reader meets no error, its words are those that the text has inside a bracket, with the line feed that is
put behind it. That line feed matters to a text that cannot be read by itself, such as one that ends with a
backslash; the words of all other texts are the same without it.

## Main Definitions

* `Token.words` — the words among tokens
* `Lexer.inBracket` — the reader of a text inside a bracket

## Main Statements

* `Lexer.words_before_close` — a closing bracket on the next line adds nothing but itself
* `Lexer.words_wrapped` — the words of a text between brackets
* `Lexer.words_append_feed` — a line feed adds no word to a text that can be read
-/

namespace Quasiquote

/-- The words among tokens. Comments, line breaks, indentation and the end of the text are none. -/
def Token.words (tokens : List Token) : List Spelling :=
  (tokens.map Token.spelling).filter (·.1.isWord)

namespace Scan

/-! ### Blanks -/

/-- What separates is blank by itself. -/
theorem Separates.blankLength {text rest : List Char} (h : Separates text rest) :
    blankLength text = text.length := by
  induction h with
  | nil => rfl
  | @gap c text rest hc _ ih =>
    have hne (d : Char) (hd : isGap d = false) : c ≠ d := by
      rintro rfl
      simp [hd] at hc
    rw [blankLength_cons (by simp [hne '\\' rfl]) (by simp [hne '\\' rfl])
      (by simp [hne '\r' rfl]), hc, Bool.true_or, if_pos rfl, ih, List.length_cons]
  | @carriageReturn text rest hfeed _ ih =>
    have hnext : ∀ more, text ≠ '\n' :: more := by
      rintro more rfl
      exact hfeed rfl
    rw [blankLength_cons (by simp) (by simp) (fun more _ => hnext more), ih, List.length_cons]
    rfl
  | join _ ih => rw [blankLength_join, ih, List.length_cons, List.length_cons]
  | joinCrlf _ ih =>
    rw [blankLength_joinCrlf, ih, List.length_cons, List.length_cons, List.length_cons]

/-- A closing bracket is not blank. -/
theorem blankLength_le_of_close (u : List Char) : blankLength (u ++ [')']) ≤ u.length := by
  by_contra hlong
  have hall : (u ++ [')']).take (blankLength (u ++ [')'])) = u ++ [')'] :=
    List.take_of_length_le (by simp; omega)
  have hplain := (separates_blanks (u ++ [')'])).any_startsLexeme
  rw [hall, List.any_append] at hplain
  exact absurd hplain (by simp [show startsLexeme ')' = true by decide])

/-- A line break that reaches over a line feed ends with it. -/
theorem breakLength_eq_of_lt {z s : List Char} (h : z.length < breakLength (z ++ '\n' :: s)) :
    breakLength (z ++ '\n' :: s) = z.length + 1 := by
  match z with
  | [] => rfl
  | [c] =>
    rw [List.singleton_append, breakLength_cons] at h ⊢
    split at h
    · simp at h
    split at h
    · next hc hcrlf => rw [if_neg hc, if_pos hcrlf]; rfl
    · simp at h
  | c :: d :: z =>
    rw [List.cons_append, breakLength_cons] at h
    simp only [List.length_cons] at h
    split at h
    · omega
    split at h <;> omega

end Scan

namespace Lexer

open Scan

variable {lx rest : Lexer} {t : Token} {u : List Char}

/-! ### The end of a text -/

theorem words_cons (t : Token) (tokens : List Token) :
    Token.words (t :: tokens) =
      (if t.kind.isWord then [t.spelling] else []) ++ Token.words tokens := by
  rw [Token.words, List.map_cons, List.filter_cons, Token.spelling]
  split <;> rfl

/-- A word begins like a lexeme. -/
theorem any_startsLexeme_of_word (h : lx.next = (.ok t, rest)) (hk : t.kind.isWord = true) :
    t.text.toList.any startsLexeme = true := by
  obtain ⟨-, -, hlexeme, -⟩ := next_of_word h hk
  have hpos := (lexeme_length hlexeme).1
  generalize t.text.toList = word at hlexeme hpos ⊢
  cases word with
  | nil => cases hpos
  | cons c word => rw [List.any_cons, startsLexeme_of_lexeme hlexeme, Bool.true_or]

/-- **Where no lexeme begins, there are no words.** -/
theorem words_of_plain (hplain : lx.ahead.any startsLexeme = false) : Token.words lx.run.1 = [] := by
  fun_induction run lx with
  | case1 => rfl
  | case2 lx t rest hnext hk => rw [words_cons, hk]; rfl
  | case3 lx t rest hnext hk later ih =>
    obtain ⟨gap, htakes⟩ := takes_next hnext
    rw [htakes.moves.ahead, List.any_append, List.any_append, Bool.or_eq_false_iff,
      Bool.or_eq_false_iff] at hplain
    have hword : t.kind.isWord = false := by
      rw [Bool.eq_false_iff]
      intro hword
      rw [any_startsLexeme_of_word hnext hword] at hplain
      exact Bool.noConfusion hplain.1.2
    rw [words_cons, hword, ih hplain.2]
    rfl

/-- Before the tokens of a line there are indents and dedents. They take no more than its indentation. -/
theorem next_of_not_atToken (h : lx.next = (.ok t, rest)) (hat : ¬ lx.AtToken) :
    (t.kind = .indent ∨ t.kind = .dedent) ∧ ∃ n ≤ lx.gapLength, rest.ahead = lx.ahead.drop n := by
  rcases lx.next_cases with hpending | ⟨hpending, hstart, hdepth, step, hstep⟩ | hat'
  · rw [next_of_pending hpending] at h
    cases h
    exact ⟨.inr rfl, 0, Nat.zero_le _, rfl⟩
  · rw [next_of_indentation hpending hstart hdepth hstep] at h
    subst h
    rcases indentation_cases hstep with ⟨-, rfl, rfl⟩ | ⟨-, -, rfl, rfl⟩
    · exact ⟨.inl rfl, lx.gapLength, Nat.le_refl _, rfl⟩
    · exact ⟨.inr rfl, lx.gapLength, Nat.le_refl _, rfl⟩
  · exact absurd hat' hat

/-- A closing bracket at the end of a text is the last token of its line. -/
theorem next_of_close (hat : lx.AtToken) (hpast : lx.pastBlanks.ahead = [')'])
    (h : lx.next = (.ok t, rest)) : t.spelling = (.operator, ")") ∧ rest.ahead = [] := by
  have hpast' : lx.onLine.pastBlanks.ahead = [')'] := hpast
  rw [next_of_atToken hat, lineToken_of_lexeme hpast' (show lexeme [')'] = some (.operator, 1) by decide)]
    at h
  cases h
  refine ⟨?_, ?_⟩
  · rw [Token.spelling, token, hpast']
    rfl
  · show lx.onLine.pastBlanks.ahead.drop 1 = []
    rw [hpast']
    rfl

/-- In front of a closing bracket there is at most indentation. -/
theorem words_of_close (ha : lx.ahead = [')']) (hrun : lx.run.2 = none) :
    Token.words lx.run.1 = [(.operator, ")")] := by
  have hpast {lx : Lexer} (ha : lx.ahead = [')']) : lx.pastBlanks.ahead = [')'] := by
    rw [pastBlanks, advance_ahead, ha]
    rfl
  fun_induction run lx with
  | case1 => simp at hrun
  | case2 lx t rest hnext hk =>
    by_cases hat : lx.AtToken
    · have hkind := congrArg Prod.fst (next_of_close hat (hpast ha) hnext).1
      simp [Token.spelling, hk] at hkind
    · have hkind := (next_of_not_atToken hnext hat).1
      simp [hk] at hkind
  | case3 lx t rest hnext hk later ih =>
    by_cases hat : lx.AtToken
    · obtain ⟨hspelling, hnil⟩ := next_of_close hat (hpast ha) hnext
      have hkind : t.kind = .operator := congrArg Prod.fst hspelling
      rw [words_cons, hkind, hspelling, words_of_plain (by rw [hnil]; rfl)]
      rfl
    · obtain ⟨hkind, n, hn, hdrop⟩ := next_of_not_atToken hnext hat
      have hgap : lx.gapLength = 0 := by
        rw [gapLength, ha]
        rfl
      obtain rfl : n = 0 := by omega
      have hword : t.kind.isWord = false := by
        rcases hkind with hkind | hkind <;> rw [hkind] <;> rfl
      rw [words_cons, hword, ih (hdrop.trans ha) hrun]
      rfl

/-- No content reaches over the line feed in front of a closing bracket: neither of them is a quote. -/
theorem lexeme_le_of_close {z : List Char} {kind : Token.Kind} {n : Nat}
    (h : lexeme (z ++ ['\n', ')']) = some (kind, n)) : n ≤ z.length := by
  by_contra hlong
  obtain ⟨quote, hquote, hlast⟩ := lexeme_past_feed h (by omega)
  obtain ⟨m, hm⟩ : ∃ m, n - z.length = m + 1 := ⟨n - z.length - 1, by omega⟩
  rw [List.take_append, hm, List.getLast?_append, List.take_succ_cons] at hlast
  cases m with
  | zero =>
    obtain rfl : '\n' = quote := by simpa using hlast
    exact absurd hquote (by decide)
  | succ m =>
    obtain rfl : ')' = quote := by simpa using hlast
    exact absurd hquote (by decide)

/-- A token of a line that reaches over the line feed in front of a closing bracket is the line break. -/
theorem lineToken_over_feed {z : List Char} (hpast : lx.pastBlanks.ahead = z ++ ['\n', ')'])
    (h : lx.lineToken = (.ok t, rest)) (hshort : rest.ahead.length ≤ 1) :
    t.kind.isWord = false ∧ rest.ahead = [')'] := by
  have hreach {n : Nat} (hn : (lx.pastBlanks.advance n).ahead.length ≤ 1) : z.length < n := by
    rw [advance_ahead, hpast, List.length_drop, List.length_append] at hn
    simp only [List.length_cons, List.length_nil] at hn
    omega
  rcases lineToken_cases h with ⟨hnil, -⟩ | ⟨text, hcons, hcomment⟩ | ⟨c, text, hcons, hc, hbreak⟩ |
    ⟨c, text, kind, n, hcons, hlexeme, hstep⟩
  · simp [hpast] at hnil
  · cases hcomment
    have hle : ((z ++ ['\n', ')']).takeWhile fun c => !endsLine c).length ≤ z.length := by
      rw [takeWhile_before_end (by decide) _ (atLineEnd_feed _)]
      exact (List.takeWhile_sublist _).length_le
    have hlong := hreach hshort
    rw [hpast] at hlong
    omega
  · cases hbreak
    have hlong := hreach hshort
    rw [hpast] at hlong
    have hlength := breakLength_eq_of_lt hlong
    refine ⟨?_, ?_⟩
    · dsimp only [token]
      split <;> rfl
    · show lx.pastBlanks.ahead.drop _ = _
      rw [hpast, hlength, List.append_cons]
      exact List.drop_left' (by simp)
  · cases hstep
    rw [← hcons, hpast] at hlexeme
    have hlong := hreach hshort
    have hle := lexeme_le_of_close hlexeme
    omega

/-- The last step in front of a closing bracket on a line of its own takes the line break before it, or
the bracket. -/
theorem last_step (ha : lx.ahead = u ++ ['\n', ')']) (h : lx.next = (.ok t, rest))
    (hshort : rest.ahead.length ≤ 1) :
    (t.kind.isWord = false ∧ rest.ahead = [')']) ∨
      (blankLength lx.ahead = u.length + 1 ∧ t.spelling = (.operator, ")") ∧ rest.ahead = []) := by
  have hat : lx.AtToken := by
    by_contra hat
    obtain ⟨-, n, hn, hdrop⟩ := next_of_not_atToken h hat
    have hgap : lx.gapLength ≤ u.length := by
      rw [gapLength, ha, takeWhile_before_end (by decide) _ (atLineEnd_feed _)]
      exact (List.takeWhile_sublist _).length_le
    rw [hdrop, ha] at hshort
    simp at hshort
    omega
  have hbound : blankLength lx.ahead ≤ u.length + 1 := by
    rw [ha, List.append_cons]
    simpa using blankLength_le_of_close (u ++ ['\n'])
  rcases Nat.lt_or_eq_of_le hbound with hbefore | hall
  · have hpast : lx.onLine.pastBlanks.ahead = u.drop (blankLength lx.ahead) ++ ['\n', ')'] := by
      rw [← List.drop_append_of_le_length (Nat.le_of_lt_succ hbefore), ← ha]
      rfl
    rw [next_of_atToken hat] at h
    exact .inl (lineToken_over_feed hpast h hshort)
  · have hpast : lx.pastBlanks.ahead = [')'] := by
      rw [pastBlanks, advance_ahead, hall]
      conv_lhs => rw [ha, List.append_cons]
      exact List.drop_left' (by simp)
    exact .inr ⟨hall, next_of_close hat hpast h⟩

/-- In place of the line break in front of a closing bracket, the text may end with that line break. -/
theorem sameFront_close (u : List Char) : SameFront (u ++ ['\n']) [')'] [] := by
  have hsame := sameFront_before_feed [] u [')'] []
  refine ⟨?_, ?_, ?_, fun hle => ?_⟩
  · simpa using hsame.gap
  · simpa using hsame.blankLine
  · simpa using hsame.commentLine
  · rw [List.append_nil, List.append_assoc u ['\n'] [')']]
    rw [List.append_assoc u ['\n'] [')']] at hle
    rcases Nat.lt_or_eq_of_le hle with hbefore | hall
    · exact blankLength_before_feed [] (by simpa using Nat.le_of_lt_succ (by simpa using hbefore))
    · -- all of the text is blank, and stays so without the bracket
      have hseparates := separates_blanks (u ++ (['\n'] ++ [')']))
      rw [hall, ← List.append_assoc u, List.take_left] at hseparates
      rw [hall]
      exact hseparates.blankLength

theorem replaces_close {kind : Token.Kind} (hk : kind.isWord = false) (length : Nat) :
    Replaces kind length [')'] [] where
  nil _ h := by simp at h
  comment h := by simp [endsLine] at h
  lineBreak x hx _ := by
    obtain ⟨c, x, rfl⟩ := List.exists_cons_of_ne_nil hx
    rw [List.cons_append, List.cons_append, breakLength_cons, breakLength_cons]
    cases x <;> simp
  lexeme x _ _ h := by
    rw [isWord_of_lexeme h] at hk
    simp at hk

/-- The words of a reader whose first step is repeated elsewhere. -/
theorem words_of_repeats {lx' : Lexer} {T : List Char} (hk : t.kind ≠ .endMarker)
    (h : Repeats T (.ok t, rest) lx'.next) :
    ∃ b p, Token.words lx'.run.1 =
      (if t.kind.isWord then [t.spelling] else []) ++ Token.words (rest.elsewhere b T p).run.1 := by
  obtain ⟨t₁, t', rest₁, b, p, hfirst, hsecond, hspelling⟩ := h
  cases hfirst
  have hkind : t'.kind = t.kind := congrArg Prod.fst hspelling
  refine ⟨b, p, ?_⟩
  rw [run_of_next hsecond (hkind ▸ hk), words_cons, hkind, hspelling]

/-- **A closing bracket on the next line adds nothing but itself** to the words of a text. -/
theorem words_before_close (hrun : lx.run.2 = none) :
    ∀ {u : List Char}, lx.ahead = u ++ ['\n', ')'] → ∀ b p,
      Token.words lx.run.1 =
        Token.words (lx.elsewhere b (u ++ ['\n']) p).run.1 ++ [(.operator, ")")] := by
  fun_induction run lx with
  | case1 => simp at hrun
  | case2 lx t rest hnext hk =>
    intro u ha b p
    have hnil := ahead_of_endMarker hnext hk
    rcases last_step ha hnext (by simp [hnil]) with ⟨-, hrest⟩ | ⟨-, hclose, -⟩
    · simp [hnil] at hrest
    · have hkind := congrArg Prod.fst hclose
      simp [Token.spelling, hk] at hkind
  | case3 lx t rest hnext hk later ih =>
    intro u ha b p
    by_cases hshort : rest.ahead.length ≤ 1
    · rcases last_step ha hnext hshort with ⟨hword, hrest⟩ | ⟨hblank, hclose, hrest⟩
      · have hy : lx.ahead = (u ++ ['\n']) ++ rest.ahead := by simp [ha, hrest]
        have hrepeats := next_replaced hy (hrest ▸ sameFront_close u)
          (hrest ▸ replaces_close hword _) hnext b p
        rw [List.append_nil] at hrepeats
        obtain ⟨b', p', hwords⟩ := words_of_repeats hk hrepeats
        rw [hwords, words_cons, hword, words_of_close hrest hrun, words_of_plain rfl]
        rfl
      · have hplain : (u ++ ['\n']).any startsLexeme = false := by
          have hseparates := separates_blanks lx.ahead
          rw [hblank, ha, List.append_cons, List.take_left' (by simp)] at hseparates
          exact hseparates.any_startsLexeme
        have hkind : t.kind = .operator := congrArg Prod.fst hclose
        rw [words_of_plain hplain, words_cons, hkind, hclose, words_of_plain (by rw [hrest]; rfl)]
        rfl
    · obtain ⟨gap, htakes⟩ := takes_next hnext
      obtain ⟨z, hu, hz⟩ : ∃ z, u = gap ++ t.text.toList ++ z ∧ rest.ahead = z ++ ['\n', ')'] := by
        have hsplit := ha.symm.trans htakes.moves.ahead
        rcases List.append_eq_append_iff.1 hsplit with ⟨z, hy, hrest⟩ | ⟨z, hu, hrest⟩
        · have hlength := congrArg List.length hrest
          simp only [List.length_append, List.length_cons, List.length_nil] at hlength
          obtain rfl : z = [] := List.length_eq_zero_iff.1 (by omega)
          exact ⟨[], by simpa using hy.symm, hrest.symm⟩
        · exact ⟨z, hu, hrest⟩
      have hrepeats := next_before_feed htakes.moves.ahead hz hnext [] b p
      rw [← List.append_assoc, ← hu] at hrepeats
      obtain ⟨b', p', hwords⟩ := words_of_repeats hk hrepeats
      rw [hwords, words_cons, ih hrun hz b' p', List.append_assoc]

/-- The end marker has no text. -/
theorem length_of_endMarker (h : lx.next = (.ok t, rest)) (hk : t.kind = .endMarker) :
    t.text.length = 0 := by
  obtain ⟨-, hline⟩ := lineToken_of_next h (by simp [hk])
  rcases lineToken_kinds hline with ⟨-, -, hend⟩ | ⟨hkind, -⟩ | ⟨hkind, -⟩ | ⟨hword, -⟩
  · rcases endOfSource_cases hend with ⟨-, rfl, -⟩ | ⟨-, -, rfl, -⟩ | ⟨-, -, rfl, -⟩ <;> rfl
  · simp [hk] at hkind
  · simp [hk] at hkind
  · simp [Token.Kind.isWord, hk] at hword

/-- **A line feed adds no word** to a text that can be read. -/
theorem words_append_feed (hrun : lx.run.2 = none) : ∀ b p,
    Token.words lx.run.1 = Token.words (lx.elsewhere b (lx.ahead ++ ['\n']) p).run.1 := by
  have hplain {lx : Lexer} (h : lx.ahead.any startsLexeme = false) (b : List Char) (p : Position) :
      Token.words lx.run.1 = Token.words (lx.elsewhere b (lx.ahead ++ ['\n']) p).run.1 := by
    have hfeed : (lx.ahead ++ ['\n']).any startsLexeme = false := by
      rw [List.any_append, h]
      rfl
    rw [words_of_plain h, words_of_plain hfeed]
  fun_induction run lx with
  | case1 => simp at hrun
  | case2 lx t rest hnext hk =>
    intro b p
    have hend := any_startsLexeme_of_empty hnext (length_of_endMarker hnext hk)
      (ahead_of_endMarker hnext hk)
    rw [← hplain hend, words_of_plain hend, words_cons, hk]
    rfl
  | case3 lx t rest hnext hk later ih =>
    intro b p
    cases hsome : lx.ahead.any startsLexeme with
    | false =>
      rw [← hplain hsome, run_of_next hnext hk]
    | true =>
      obtain ⟨gap, htakes⟩ := takes_next hnext
      obtain ⟨b', p', hwords⟩ :=
        words_of_repeats hk (next_append_feed htakes.moves.ahead hsome hnext b p)
      rw [hwords, words_cons, ← ih hrun b' p']

/-! ### Texts between brackets -/

/-- The reader of a text inside a bracket that was opened before it. Line breaks end no logical line
there. -/
def inBracket (text : List Char) : Lexer :=
  { ofChars text with depth := 1, lineHasContent := true }

/-- **The words of a text between brackets** are the words it has inside a bracket, with the line feed
behind it, and the brackets around them. -/
theorem words_wrapped (text : List Char) {lx : Lexer}
    (hlx : lx = ofChars ('(' :: '\n' :: (text ++ ['\n', ')']))) (hrun : lx.run.2 = none) :
    Token.words lx.run.1 =
      (.operator, "(") ::
        (Token.words (inBracket (text ++ ['\n'])).run.1 ++ [(.operator, ")")]) := by
  have hlexeme : lexeme (['('] ++ '\n' :: (text ++ ['\n', ')'])) = some (.operator, 1) :=
    lexeme_mark (by simp) _
  have hat : lx.AtToken := hlx ▸ atToken_ofChars (by decide) _
  obtain ⟨b, p, hopen⟩ := spells_lexeme hat (by simp) hlexeme (by rw [hlx]; rfl)
  have hdepth : nestWord lx.depth (.operator, String.ofList ['(']) = 1 := by
    rw [hlx]
    rfl
  rw [hdepth] at hopen
  have hpending : ((lx.within 1).elsewhere b ('\n' :: (text ++ ['\n', ')'])) p).pendingDedents = 0 := by
    rw [hlx]
    rfl
  obtain ⟨b', p', hbreak⟩ := spells_break (List.forall_mem_nil _) hpending rfl
  have hfront := hopen.trans hbreak
  obtain ⟨tokens, hall, hwords⟩ := hfront.run_eq
  rw [hall] at hrun ⊢
  rw [Token.words, List.map_append, List.filter_append, hwords]
  refine congrArg ((.operator, "(") :: ·) ((words_before_close hrun rfl [] .origin).trans ?_)
  rw [hlx]
  rfl

end Lexer

end Quasiquote
