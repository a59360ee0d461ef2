import Quasiquote.Proofs.Site.Gluing

/-!
# The tokens of a rewritten source

A reader of a rewritten source and a reader of the source itself run side by side. They stand before
texts that are alike and know the same about lines, and where the one has read a site, the other has
read its call.

## Main Definitions

* `Lexer.Respells` — a reader, its pieces, and the text that stands for the text ahead of it

## Main Statements

* `Lexer.Reads.respells` — the pieces of a source are respelled by its replacement

## Design Notes

Whether a token clings to the call behind it is known only when the call is reached, and then the
token has been read. The invariant therefore says what a reader makes of the replacement, and also
what the reader one token before it makes of that token and the replacement.
-/

namespace Quasiquote

open Scan

namespace Lexer

section

variable {lx prev rest : Lexer} {t t' : Token} {s : Site} {found : List Piece} {out : List Char}
  {y : List Char}

/-! ### One token before -/

/-- Motion forgets where a reader was moved before. -/
@[simp] theorem elsewhere_elsewhere (lx : Lexer) (b A b' A' : List Char) (p p' : Position) :
    (lx.elsewhere b A p).elsewhere b' A' p' = lx.elsewhere b' A' p' := rfl

/-- Within a line, no token is empty but at the end of the text. -/
theorem ahead_eq_nil (hat : lx.AtToken) (h : lx.next = (.ok t, rest)) (hsame : rest.ahead = lx.ahead) :
    lx.ahead = [] := by
  rw [next_of_atToken hat] at h
  -- any other token takes at least one character
  have hshort {c : Char} {text : List Char} {n : Nat} (hcons : lx.onLine.pastBlanks.ahead = c :: text)
      (hrest : rest.ahead = lx.onLine.pastBlanks.ahead.drop n) (hn : 0 < n) : False := by
    have hlength := congrArg List.length hrest
    have hblank : lx.onLine.pastBlanks.ahead.length ≤ lx.ahead.length := by
      show (lx.ahead.drop _).length ≤ _
      rw [List.length_drop]
      omega
    rw [hsame, List.length_drop] at hlength
    rw [hcons, List.length_cons] at hlength hblank
    omega
  rcases lineToken_cases h with ⟨hnil, hend⟩ | ⟨_, hcons, hcomment⟩ | ⟨c, _, hcons, hc, hbreak⟩ |
    ⟨c, _, kind, n, hcons, hlexeme, hstep⟩
  · rw [← hsame, (kind_endOfSource hend).2, hnil]
  · cases hcomment
    refine (hshort hcons rfl ?_).elim
    rw [hcons, List.takeWhile_cons_of_pos (by decide)]
    exact Nat.succ_pos _
  · cases hbreak
    exact (hshort hcons rfl (breakLength_drop_blankLength hcons hc)).elim
  · cases hstep
    exact (hshort hcons rfl (lexeme_length hlexeme).1).elim

/-- Texts that are alike follow a token that does not cling to the identifier in the second. -/
theorem follows_of_alike {kind : Token.Kind} {length : Nat} {S T : List Char} (h : Alike S T)
    (hcling : ∀ d ∈ T.head?, S.head? = some '[' ∨ S.head? = some 'w' → ¬ Clings kind length d) :
    Follows kind length S T := by
  cases h with
  | nil => exact .nil
  | cons c h => exact .cons c h
  | site S T hc hd =>
    refine .site S T hc hd (hcling _ rfl ?_)
    rcases hc with rfl | rfl
    · exact .inl rfl
    · exact .inr rfl

/-- Only words cling. -/
theorem isWord_of_clings {kind : Token.Kind} {length : Nat} {d : Char}
    (h : Clings kind length d) : kind.isWord = true := by
  rcases h with rfl | ⟨rfl, -⟩ | ⟨rfl, -⟩ <;> rfl

/-- Behind a token, the next token follows in the replacement as it does in the source. -/
theorem follows_token (hprev : prev.next = (.ok t, lx)) (hnext : lx.next = (.ok t', rest))
    (hy : lx.ahead = y ++ rest.ahead) (hout : Alike rest.ahead out) :
    Follows t.kind t.text.length lx.ahead (y ++ out) := by
  rw [hy]
  cases y with
  | cons c y => exact .cons c (hout.append y)
  | nil =>
    by_cases hword : t.kind.isWord = true
    · obtain ⟨hat, -, -, b, A, p, hlx⟩ := next_of_word hprev hword
      have hnil : rest.ahead = [] := by
        have hempty := @ahead_eq_nil lx rest t' (hlx ▸ atToken_within hat.1 _ b A p) hnext hy.symm
        simpa [hempty] using hy
      rw [hnil] at hout ⊢
      cases hout
      exact .nil
    · exact follows_of_alike hout fun d _ _ hcling => hword (isWord_of_clings hcling)

/-- **A token that does not cling** is read before the replacement as it is read before the text. -/
theorem tokenizes_before {words : List Spelling} (hprev : prev.next = (.ok t, lx))
    (hk : t.kind ≠ .endMarker) (hy : prev.ahead = y ++ lx.ahead)
    (hout : Follows t.kind t.text.length lx.ahead out)
    (hreads : ∀ b p, (lx.elsewhere b out p).Tokenizes words) (b : List Char) (p : Position) :
    (prev.elsewhere b (y ++ out) p).Tokenizes (t.spelling :: words) := by
  obtain ⟨t₁, t₂, rest, b', p', hfirst, hsecond, hspelling⟩ := next_elsewhere hy hout hprev b p
  cases hfirst
  have hkind : t₂.spelling.1 ≠ .endMarker := by
    rw [hspelling]
    exact hk
  rw [← hspelling]
  exact (Spells.single hsecond rfl hkind).tokenizes (hreads b' p')

/-! ### Before a site -/

/-- The stretch of a site begins with a bracket or a word. -/
theorem Quotes.span_eq {gap span : List Char} (h : lx.Quotes s gap span rest) :
    ∃ c more, span = c :: more ∧ (c = '[' ∨ c = 'w') := by
  rcases h.opens with hopens | hopens
  · obtain ⟨more, rfl⟩ := List.head?_eq_some_iff.1 hopens
    exact ⟨_, more, rfl, .inl rfl⟩
  · obtain ⟨more, rfl⟩ := List.head?_eq_some_iff.1 hopens
    exact ⟨_, more, rfl, .inr rfl⟩

/-- A site and its call are alike, whatever follows. -/
theorem Quotes.alike_call {gap span : List Char} (h : lx.Quotes s gap span rest) (S T : List Char) :
    Alike (span ++ S) (s.callChars ++ T) := by
  obtain ⟨d, more, hcall, hd, -⟩ := Site.callChars_eq_cons h.quoter
  obtain ⟨c, later, rfl, hc⟩ := h.span_eq
  rw [hcall]
  exact .site _ _ hc hd

theorem Quotes.alike {gap span : List Char} (h : lx.Quotes s gap span rest) (T : List Char) :
    Alike lx.ahead (gap ++ (s.callChars ++ T)) := by
  rw [h.moves.ahead, List.append_assoc]
  exact (h.alike_call _ T).append gap

/-- Blanks before a text are blanks before its replacement. -/
theorem drop_blanks {A T : List Char} (hsame : Alike lx.ahead A)
    (hA : A = lx.ahead.take (blankLength lx.ahead) ++ T) : A.drop (blankLength A) = T := by
  rw [hsame.blankLength, hA, List.drop_left']
  rw [List.length_take, Nat.min_eq_left (blankLength_le _)]

/-- A call with some front is read behind the blanks of a text that is alike. -/
theorem spells_replacement {A T x text : List Char} {front : List Spelling} {c : Char}
    (hat : lx.AtToken) (hsame : Alike lx.ahead A)
    (hA : A = lx.ahead.take (blankLength lx.ahead) ++ x) (hx : x = c :: text)
    (hc : startsLexeme c = true)
    (hfront : Words x front (s.argumentChars ++ (s.closingChars ++ T))) (hne : front ≠ [])
    (hdepth : front.foldl nestWord lx.depth = lx.depth)
    (hblock : s.kind = .block → lx.depth = 0) (b : List Char) (p : Position) :
    ∃ b' p', (lx.elsewhere b A p).Spells (front ++ s.tailWords)
      ((s.leaves lx).elsewhere b' T p') := by
  have hzero : blankLength x = 0 := by
    rw [hx]
    exact blankLength_spaces hc 0 text
  have hpast : (lx.elsewhere b A p).pastBlanks.ahead = x.drop (blankLength x) := by
    rw [hzero, List.drop_zero]
    exact drop_blanks hsame hA
  obtain ⟨b', p', hspells⟩ := @Site.spells_call s (lx.elsewhere b A p) T x front hfront hne hdepth
    (hat.elsewhere hsame b p) hblock hpast
  rw [Site.leaves_elsewhere, elsewhere_elsewhere] at hspells
  exact ⟨b', p', hspells⟩

theorem startsLexeme_of_identStart {d : Char} (h : isIdentStart d = true) :
    startsLexeme d = true := by
  simp [startsLexeme, h]

/-- **A call is read where its site stands,** and the reader goes on as behind the site. -/
theorem Quotes.spells {gap span : List Char} (h : lx.Quotes s gap span rest) (T b : List Char)
    (p : Position) :
    ∃ b' p', (lx.elsewhere b (gap ++ (s.callChars ++ T)) p).Spells s.callWords
      (rest.elsewhere b' T p') := by
  obtain ⟨d, more, hcall, hd, -⟩ := Site.callChars_eq_cons h.quoter
  obtain ⟨_, _, _, hrest⟩ := h.leaves
  rw [hrest]
  have hx : s.callChars ++ T = d :: (more ++ T) := by rw [hcall]; rfl
  exact spells_replacement h.atToken (h.alike T) (by rw [← h.blanks]) hx
    (startsLexeme_of_identStart hd) (s.words_call h.quoter T) (by simp [Site.frontWords])
    (Site.nest_frontWords _ (by simp) _) (fun hk => (h.block hk).1) b p

/-- **A token that clings** is read together with the call behind it. -/
theorem Quotes.spells_glued {span : List Char} {d : Char} (h : lx.Quotes s [] span rest)
    (hprev : prev.next = (.ok t, lx)) (hy : prev.ahead = y ++ lx.ahead)
    (hd : d ∈ s.quoter.toList.head?) (hcling : Clings t.kind t.text.length d) (T b : List Char)
    (p : Position) :
    ∃ b' p', (prev.elsewhere b (y ++ (s.callChars ++ T)) p).Spells (s.gluedFront t ++ s.tailWords)
      (rest.elsewhere b' T p') := by
  obtain ⟨hat, htakes, hlexeme, _, _, _, hlx⟩ := next_of_word hprev (isWord_of_clings hcling)
  have hdepth : lx.depth = prev.depth := by
    rw [hlx]
    exact Site.nestWord_of_clings hlexeme hcling prev.depth
  -- such a token leaves the depth as it is, so that the call leaves what it would without it
  have hleaves : ∃ b A p, rest = (s.leaves prev).elsewhere b A p := by
    obtain ⟨b, A, p, hrest⟩ := h.leaves
    rw [Site.nestWord_of_clings hlexeme hcling] at hlx
    rw [hlx, Site.leaves_elsewhere, Site.leaves_within] at hrest
    exact ⟨_, _, _, hrest⟩
  obtain ⟨_, _, _, hrest⟩ := hleaves
  rw [hrest]
  have hsame : Alike prev.ahead (y ++ (s.callChars ++ T)) := hy ▸ (h.alike T).append y
  have hyx : y = prev.ahead.take (blankLength prev.ahead) ++ t.text.toList :=
    List.append_cancel_right (hy.symm.trans htakes.moves.ahead)
  -- the token's text and the call are one text that begins with a lexeme
  obtain ⟨c, later, hspan, hc⟩ := h.span_eq
  have hfront : Words (t.text.toList ++ (s.callChars ++ T)) (s.gluedFront t)
      (s.argumentChars ++ (s.closingChars ++ T)) := by
    have hopen : s.argumentChars ++ (s.closingChars ++ T) =
        '(' :: (s.argumentChars.tail ++ (s.closingChars ++ T)) := rfl
    have hahead : lx.ahead = c :: (later ++ rest.ahead) := by
      rw [h.moves.ahead, hspan]
      rfl
    rw [hahead] at hlexeme
    have hwords := Site.words_gluedFront hc hlexeme h.quoter hd hcling
      (s.argumentChars.tail ++ (s.closingChars ++ T))
    rw [← hopen] at hwords
    rw [Site.callChars_eq]
    simpa using hwords
  obtain ⟨e, x, hx⟩ := List.exists_cons_of_ne_nil
    (List.ne_nil_of_length_pos (lexeme_length hlexeme).1)
  have hstart : startsLexeme e = true := by
    rw [hx] at hlexeme
    exact startsLexeme_of_lexeme hlexeme
  exact spells_replacement hat hsame (by rw [hyx]; simp) (by rw [hx]; rfl) hstart hfront
    (s.gluedFront_ne_nil t) (Site.nest_gluedFront hlexeme hcling _)
    (fun hk => hdepth ▸ (h.block hk).1) b p

/-- No blanks stand before a site that begins where the reader is. -/
theorem Quotes.gap_eq_nil {gap span : List Char} (h : lx.Quotes s gap span rest)
    (hdirect : s.start = lx.here.offset) : gap = [] := by
  by_contra hne
  have hpos := byteLength_pos hne
  have hstart := h.start
  omega

/-- Behind a token that does not cling, a call follows as its site does. -/
theorem Quotes.follows {gap span : List Char} (h : lx.Quotes s gap span rest)
    (hstop : t.stop.offset = lx.here.offset) (hplain : ¬ Glued t s) (T : List Char) :
    Follows t.kind t.text.length lx.ahead (gap ++ (s.callChars ++ T)) := by
  cases gap with
  | cons c gap =>
    rw [h.moves.ahead, List.append_assoc]
    exact .cons c ((h.alike_call _ T).append gap)
  | nil =>
    obtain ⟨d, more, hcall, -, hd⟩ := Site.callChars_eq_cons h.quoter
    refine follows_of_alike (h.alike T) fun e he _ hcling => hplain ⟨?_, d, hd, ?_⟩
    · rw [hstop, h.start]
      rfl
    · rw [hcall] at he
      cases he
      exact hcling

/-! ### Side by side -/

/-- **A text that stands for the text ahead of a reader.** It is that text with the sites replaced;
the reader would read it as the words of its pieces, and so would the reader one token before. -/
structure Respells (lx : Lexer) (found : List Piece) (out : List Char) : Prop where
  rewriting : Rewriting lx.here.offset lx.ahead (found.filterMap Piece.site?) out
  alike : Alike lx.ahead out
  reads : ∀ b p, (lx.elsewhere b out p).Tokenizes (respelled found)
  before : ∀ {prev : Lexer} {t : Token} {y : List Char}, prev.next = (.ok t, lx) →
    t.kind ≠ .endMarker → prev.ahead = y ++ lx.ahead → ∀ b p,
    (prev.elsewhere b (y ++ out) p).Tokenizes (respelled (.token t :: found))

theorem respells_last (hnext : lx.next = (.ok t, rest)) (hk : t.kind = .endMarker) :
    lx.Respells [.token t] lx.ahead := by
  obtain ⟨gap, htakes⟩ := takes_next hnext
  have hreads (b : List Char) (p : Position) :
      (lx.elsewhere b lx.ahead p).Tokenizes (respelled [.token t]) := by
    obtain ⟨t₁, t₂, _, b', p', hfirst, hsecond, hspelling⟩ :=
      next_elsewhere htakes.moves.ahead (Follows.refl _ _ _) hnext b p
    cases hfirst
    rw [← htakes.moves.ahead] at hsecond
    have hend : t₂.kind = .endMarker := by
      have := congrArg Prod.fst hspelling
      exact this.trans hk
    exact ⟨_, run_of_end hsecond hend, by rw [List.map_singleton, hspelling]; rfl⟩
  refine ⟨.done _ _, .refl _, hreads, fun hprev hk hy b p => ?_⟩
  rw [respelled_token (by simp)]
  exact tokenizes_before hprev hk hy (.refl _ _ _) hreads b p

theorem respells_token (hnext : lx.next = (.ok t, rest)) (hk : t.kind ≠ .endMarker)
    (hmoves : lx.Moves y rest) (h : rest.Respells found out) :
    lx.Respells (.token t :: found) (y ++ out) := by
  refine ⟨hmoves.rewriting h.rewriting, ?_, h.before hnext hk hmoves.ahead, ?_⟩
  · rw [hmoves.ahead]
    exact h.alike.append y
  · intro prev t₀ y₀ hprev hk₀ hy b p
    rw [respelled_token (by simp)]
    exact tokenizes_before hprev hk₀ hy (follows_token hprev hnext hmoves.ahead h.alike)
      (h.before hnext hk hmoves.ahead) b p

theorem respells_site {gap span : List Char} (hquotes : lx.Quotes s gap span rest)
    (h : rest.Respells found out) :
    lx.Respells (.site s :: found) (gap ++ (s.callChars ++ out)) := by
  have hreads (b : List Char) (p : Position) :
      (lx.elsewhere b (gap ++ (s.callChars ++ out)) p).Tokenizes (respelled (.site s :: found)) := by
    obtain ⟨b', p', hspells⟩ := hquotes.spells out b p
    rw [respelled_site]
    exact hspells.tokenizes (h.reads b' p')
  refine ⟨hquotes.rewriting h.rewriting, hquotes.alike out, hreads, ?_⟩
  intro prev t y hprev hk hy b p
  obtain ⟨_, htakes⟩ := takes_next hprev
  have hstop : t.stop.offset = lx.here.offset := htakes.stop_offset
  by_cases hglued : Glued t s
  · -- nothing stands between the token and the site
    obtain ⟨hoffset, d, hd, hcling⟩ := hglued
    obtain rfl := hquotes.gap_eq_nil (hoffset.symm.trans hstop)
    obtain ⟨b', p', hspells⟩ := hquotes.spells_glued hprev hy hd hcling out b p
    have hall := hspells.tokenizes (h.reads b' p')
    rw [List.append_assoc] at hall
    rw [respelled_glued ⟨hoffset, d, hd, hcling⟩]
    exact hall
  · rw [respelled_token (by rintro s' hs'; cases hs'; exact hglued)]
    exact tokenizes_before hprev hk hy (hquotes.follows hstop hglued out) hreads b p

/-- **The pieces of a source are respelled by its replacement.** -/
theorem Reads.respells (h : lx.Reads found) : ∃ out, lx.Respells found out := by
  -- from the end of the source to its beginning: what a token comes to depends on what follows it
  induction h with
  | last hnext hk => exact ⟨_, respells_last hnext hk⟩
  | token hnext hk _ _ ih =>
    obtain ⟨out, hout⟩ := ih
    obtain ⟨gap, htakes⟩ := takes_next hnext
    exact ⟨_, respells_token hnext hk htakes.moves hout⟩
  | site hopener hopens hmarker hkind hsite _ ih =>
    obtain ⟨out, hout⟩ := ih
    obtain ⟨gap, span, hquotes⟩ := quotes_of_site hopener hopens hmarker hkind hsite
    exact ⟨_, respells_site hquotes hout⟩

end

end Lexer

/-! ### At the beginning of a source -/

/-- The quoter's name begins the rewritten source, with a character that is taken for a byte order
mark there. -/
def LosesMark (source : String) (s : Site) : Prop :=
  source.toList.head? ≠ some byteOrderMark ∧ s.start = 0 ∧
    s.quoter.toList.head? = some byteOrderMark

instance (source : String) (s : Site) : Decidable (LosesMark source s) :=
  inferInstanceAs (Decidable (source.toList.head? ≠ some byteOrderMark ∧ s.start = 0 ∧
    s.quoter.toList.head? = some byteOrderMark))

/-- The words of a rewritten source. -/
def rewrittenWords (source : String) : List Piece → List Spelling
  | .site s :: later =>
    if LosesMark source s then s.lostFront ++ (s.tailWords ++ respelled later)
    else s.callWords ++ respelled later
  | found => respelled found

theorem rewrittenWords_of_not {source : String} {found : List Piece}
    (h : ∀ s, found.head? = some (.site s) → ¬ LosesMark source s) :
    rewrittenWords source found = respelled found := by
  match found with
  | [] | .token _ :: _ => rfl
  | .site s :: later => rw [rewrittenWords, if_neg (h s rfl), respelled_site]

/-- Either a call at the beginning loses its first character, or the sites are replaced and nothing
else happens. -/
theorem rewrittenWords_cases (source : String) (found : List Piece) :
    (∃ s later, found = .site s :: later ∧ LosesMark source s ∧
      rewrittenWords source found = s.lostFront ++ (s.tailWords ++ respelled later)) ∨
    ((∀ s, found.head? = some (.site s) → ¬ LosesMark source s) ∧
      rewrittenWords source found = respelled found) := by
  by_cases h : ∃ s, found.head? = some (.site s) ∧ LosesMark source s
  · obtain ⟨s, hfirst, hlost⟩ := h
    obtain ⟨later, rfl⟩ := List.head?_eq_some_iff.1 hfirst
    exact .inl ⟨s, later, rfl, hlost, by rw [rewrittenWords, if_pos hlost]⟩
  · have hkept : ∀ s, found.head? = some (.site s) → ¬ LosesMark source s :=
      fun s hs hlost => h ⟨s, hs, hlost⟩
    exact .inr ⟨hkept, rewrittenWords_of_not hkept⟩

namespace Lexer

section

variable {text : List Char} {found : List Piece}

/-- Where a source does not begin with a mark, its replacement does so only with a call. -/
theorem Reads.begins (h : (ofChars text).Reads found) (htext : text.head? ≠ some byteOrderMark) :
    ∃ out, (ofChars text).Respells found out ∧
      (out.head? = some byteOrderMark → ∃ s, found.head? = some (.site s) ∧ s.start = 0 ∧
        s.quoter.toList.head? = some byteOrderMark) := by
  cases h with
  | last hnext hk => exact ⟨text, respells_last hnext hk, fun hmark => absurd hmark htext⟩
  | @token _ rest t found hnext hk _ hrest =>
    obtain ⟨out, hout⟩ := hrest.respells
    obtain ⟨gap, htakes⟩ := takes_next hnext
    have hahead : text = gap ++ t.text.toList ++ rest.ahead := htakes.moves.ahead
    refine ⟨_, respells_token hnext hk htakes.moves hout, fun hmark => absurd ?_ htext⟩
    cases hy : gap ++ t.text.toList with
    | cons c y =>
      rw [hy] at hmark hahead
      rw [hahead]
      exact hmark
    | nil =>
      rw [hy, List.nil_append] at hahead hmark
      have halike := hout.alike
      rw [← hahead] at halike
      generalize out = out' at halike hmark
      cases halike with
      | nil => exact hmark
      | cons => exact hmark
      | site S T hc _ =>
        -- at the beginning of a line that is not indented, the first token is not empty
        have hnil := ahead_eq_nil (atToken_ofChars (site_not_gap hc) S) hnext hahead.symm
        simp [ofChars] at hnil
  | site hopener hopens hmarker hkind hsite hrest =>
    obtain ⟨out, hout⟩ := hrest.respells
    obtain ⟨gap, span, hquotes⟩ := quotes_of_site hopener hopens hmarker hkind hsite
    refine ⟨_, respells_site hquotes hout, fun hmark => ?_⟩
    cases gap with
    | cons c gap =>
      have hahead : text = c :: gap ++ span ++ _ := hquotes.moves.ahead
      rw [hahead] at htext
      exact absurd hmark htext
    | nil =>
      obtain ⟨d, more, hcall, -, hd⟩ := Site.callChars_eq_cons hquotes.quoter
      refine ⟨_, rfl, hquotes.start, ?_⟩
      rw [List.nil_append, hcall] at hmark
      rw [hd]
      exact hmark

/-- **A call that loses its first character** is read without it, and the rest as it is. -/
theorem Quotes.tokenizes_lost {rest : Lexer} {s : Site} {span T : List Char}
    {words : List Spelling} (h : (ofChars text).Quotes s [] span rest)
    (hmark : s.quoter.toList.head? = some byteOrderMark)
    (hreads : ∀ b p, (rest.elsewhere b T p).Tokenizes words) :
    (ofChars (stripMark (s.callChars ++ T))).Tokenizes (s.lostFront ++ (s.tailWords ++ words)) := by
  obtain ⟨name, hname⟩ := List.head?_eq_some_iff.1 hmark
  have hstrip : stripMark (s.callChars ++ T) = s.quoter.toList.tail ++
      '.' :: (s.kind.method.toList ++ (s.argumentChars ++ (s.closingChars ++ T))) := by
    rw [Site.callChars_eq, hname, List.cons_append, List.cons_append, stripMark, if_pos rfl]
    simp
  have hfront := Site.words_lostFront (s := s) h.quoter
    (s.argumentChars.tail ++ (s.closingChars ++ T))
  have hopen : s.argumentChars ++ (s.closingChars ++ T) =
      '(' :: (s.argumentChars.tail ++ (s.closingChars ++ T)) := rfl
  rw [← hopen, ← hstrip] at hfront
  have hat : (ofChars (stripMark (s.callChars ++ T))).AtToken := by
    rw [hstrip]
    cases htail : s.quoter.toList.tail with
    | nil => exact atToken_ofChars (by decide) _
    | cons c tail =>
      have hc : c ∈ s.quoter.toList := List.mem_of_mem_tail (htail ▸ List.mem_cons_self)
      exact atToken_ofChars
        (not_gap_of_identPart (isIdentPart_of_isIdentifier h.quoter c hc)) _
  obtain ⟨b, p, hspells⟩ := Site.spells_call hfront s.lostFront_ne_nil (Site.nest_lostFront _) hat
    (fun _ => rfl) rfl
  obtain ⟨_, _, _, hrest⟩ := h.leaves
  have hleaves : (s.leaves (ofChars (stripMark (s.callChars ++ T)))).elsewhere b T p =
      rest.elsewhere b T p := by
    rw [hrest]
    have hsame : ofChars (stripMark (s.callChars ++ T)) =
        (ofChars text).elsewhere [] (stripMark (s.callChars ++ T)) .origin := rfl
    rw [hsame, Site.leaves_elsewhere]
    rfl
  rw [hleaves] at hspells
  have hall := hspells.tokenizes (hreads b p)
  rwa [List.append_assoc] at hall

end

end Lexer

/-- What stands for a source behind its mark is read as the words of the rewritten source. -/
theorem tokenizes_rewritten {source : String} {found : List Piece} (h : pieces source = .ok found) :
    ∃ out, Rewriting 0 (stripMark source.toList) (found.filterMap Piece.site?) out ∧
      ∀ mark, source.toList = mark ++ stripMark source.toList →
        (Lexer.ofChars (stripMark (mark ++ out))).Tokenizes (rewrittenWords source found) := by
  have hreads := Lexer.reads_of_pieces h
  by_cases hhead : source.toList.head? = some byteOrderMark
  · -- the mark is stripped once, whatever follows it
    obtain ⟨text, htext⟩ := List.head?_eq_some_iff.1 hhead
    obtain ⟨out, hout⟩ := hreads.respells
    refine ⟨out, hout.rewriting, fun mark hmark => ?_⟩
    have hstrip : stripMark source.toList = text := by rw [htext, stripMark, if_pos rfl]
    have hsingle : mark = [byteOrderMark] := by
      rw [hstrip, htext] at hmark
      exact (@List.append_cancel_right _ [byteOrderMark] _ _ hmark).symm
    rw [hsingle, List.singleton_append, stripMark, if_pos rfl,
      rewrittenWords_of_not fun s _ hlost => hlost.1 hhead]
    exact hout.reads [] .origin
  · have hstrip := stripMark_of_ne hhead
    have hnone {mark : List Char} (hmark : source.toList = mark ++ stripMark source.toList) :
        mark = [] := by
      rw [hstrip] at hmark
      exact List.append_left_eq_self.1 hmark.symm
    -- without a mark of its own, the replacement may seem to begin with one
    rcases rewrittenWords_cases source found with ⟨s, later, rfl, hlost, heq⟩ | ⟨hkept, heq⟩
    · cases hreads with
      | site hopener hopens hmarker hkind hsite hrest =>
        obtain ⟨out, hout⟩ := hrest.respells
        obtain ⟨gap, span, hquotes⟩ := Lexer.quotes_of_site hopener hopens hmarker hkind hsite
        obtain rfl := hquotes.gap_eq_nil hlost.2.1
        refine ⟨_, hquotes.rewriting hout.rewriting, fun mark hmark => ?_⟩
        rw [hnone hmark, heq]
        exact hquotes.tokenizes_lost hlost.2.2 hout.reads
    · obtain ⟨out, hout, hbegins⟩ := hreads.begins (by rwa [hstrip])
      refine ⟨out, hout.rewriting, fun mark hmark => ?_⟩
      have hplain : out.head? ≠ some byteOrderMark := by
        intro hfirst
        obtain ⟨s, hs, hstart, hname⟩ := hbegins hfirst
        exact hkept s hs ⟨hhead, hstart, hname⟩
      rw [hnone hmark, List.nil_append, stripMark_of_ne hplain, heq]
      exact hout.reads [] .origin

/-- **A rewritten source is read as its words,** without an error. -/
theorem tokenize_transform {source : String} {out : Transformed} (h : transform source = .ok out) :
    ∃ found tokens, pieces source = .ok found ∧ tokenize out.source = .ok tokens ∧
      tokens.map Token.spelling = rewrittenWords source found := by
  obtain ⟨sites, hsites, rfl⟩ := map_eq_ok h
  obtain ⟨found, hfound, rfl⟩ := map_eq_ok hsites
  obtain ⟨out, hout, htokenizes⟩ := tokenizes_rewritten hfound
  obtain ⟨mark, hmark, hall⟩ := hout.behind_mark
  obtain ⟨tokens, hrun, hwords⟩ := htokenizes mark hmark
  refine ⟨found, tokens, hfound, ?_, hwords⟩
  rw [tokenize, Lexer.ofSource, hall.splice_eq, String.toList_ofList, hrun]

/-- **When the tokens around the sites survive.** A rewritten source is always free of lexical
errors. Its tokens are those of the source with a call for every site, unless a token clings to the
call behind it or a call at the beginning loses its first character. -/
theorem transform_tokens {source : String} {out : Transformed} (h : transform source = .ok out) :
    ∃ found tokens, pieces source = .ok found ∧ tokenize out.source = .ok tokens ∧
      (tokens.map Token.spelling = found.flatMap Piece.words ↔
        Detached found ∧ ∀ s, found.head? = some (.site s) → ¬ LosesMark source s) := by
  obtain ⟨found, tokens, hfound, htokens, hwords⟩ := tokenize_transform h
  refine ⟨found, tokens, hfound, htokens, ?_⟩
  rw [hwords]
  rcases rewrittenWords_cases source found with ⟨s, later, rfl, hlost, heq⟩ | ⟨hkept, heq⟩
  · have hne : s.quoter.toList ≠ [] := by
      intro hnil
      simpa [hnil] using hlost.2.2
    rw [heq, List.flatMap_cons, Piece.words, Site.callWords, List.append_assoc]
    constructor
    · exact fun hsame => absurd hsame (Site.lostFront_ne hne _ _)
    · rintro ⟨-, hkept⟩
      exact absurd hlost (hkept s rfl)
  · rw [heq, respelled_eq_iff]
    exact ⟨fun hdetached => ⟨hdetached, hkept⟩, And.left⟩

/-- A name directly before a site. -/
def gluedSource : String := "x[$q|a|]\n"

/-- The site of `gluedSource`. -/
def gluedSite : Site :=
  { kind := .expression, quoter := "q", body := "a", column := 1, line := 1, bodyLine := 1,
    sourceLine := "x[$q|a|]", start := 1, stop := 8, newlines := 0 }

theorem gluedSource_tokens :
    ∃ out, transform gluedSource = .ok out ∧
      out.source = "xq.quote_expr(\"a\", current_execution_context(), 1)\n" ∧
      ∃ found tokens, pieces gluedSource = .ok found ∧ tokenize out.source = .ok tokens ∧
        tokens.map Token.spelling ≠ found.flatMap Piece.words := by
  have htransform : transform gluedSource =
      .ok ⟨"xq.quote_expr(\"a\", current_execution_context(), 1)\n", [gluedSite]⟩ := by
    decide +kernel
  obtain ⟨found, tokens, hfound, htokens, hiff⟩ := transform_tokens htransform
  refine ⟨_, htransform, rfl, found, tokens, hfound, htokens, fun heq => ?_⟩
  have hpieces : pieces gluedSource = .ok
      [.token ⟨.name, "x", ⟨0, 1, 0⟩, ⟨1, 1, 1⟩, gluedSource⟩, .site gluedSite,
        .token ⟨.newline, "\n", ⟨8, 1, 8⟩, ⟨9, 1, 9⟩, gluedSource⟩,
        .token ⟨.endMarker, "", ⟨9, 2, 0⟩, ⟨9, 2, 0⟩, ""⟩] := by
    decide +kernel
  cases hfound.symm.trans hpieces
  exact (hiff.1 heq).1 [] _ _ _ rfl ⟨rfl, 'q', by decide, .inl rfl⟩

end Quasiquote
