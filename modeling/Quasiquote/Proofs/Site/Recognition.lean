import Quasiquote.Proofs.Basic
import Quasiquote.Proofs.Site.Call
import Quasiquote.Proofs.Source.Raw
import Quasiquote.Site.Recognition

/-!
# How a source falls into pieces

What is read as a token, what as a site, and which stretch of the source a site stands for.

## Main Definitions

* `Lexer.Reads` — a reader that reads these pieces, as a derivation without a token held back
* `Lexer.Quotes` — a reader in front of a site, and the stretch of text that the site takes

## Main Statements

* `Lexer.pieces_iff_reads` — the pieces of a source are what its reader reads
* `Lexer.quotes_of_site` — what is recognized as a site takes a stretch of the text ahead

## Design Notes

The pieces are found with one token held back. A derivation looks one token ahead in its place, so
that every piece is read by the reader that stands before it.
-/

namespace Quasiquote

/-! ### Words that open a site -/

namespace Token

theorem spelling_of_isText {t : Token} {kind : Kind} {text : String}
    (h : t.isText kind text = true) : t.spelling = (kind, text) := by
  rw [isText, Bool.and_eq_true, beq_iff_eq, beq_iff_eq] at h
  exact Prod.ext h.1 h.2

theorem opensSite_cases {t : Token} (h : t.opensSite = true) :
    t.spelling = (.name, "with") ∨ t.spelling = (.operator, "[") := by
  rw [opensSite, Bool.or_eq_true] at h
  exact h.imp spelling_of_isText spelling_of_isText

/-- A token that opens a site is read as part of its line. -/
theorem isWord_of_opensSite {t : Token} (h : t.opensSite = true) : t.kind.isWord = true := by
  rcases opensSite_cases h with hword | hword
  · rw [show t.kind = .name from congrArg Prod.fst hword]
    rfl
  · rw [show t.kind = .operator from congrArg Prod.fst hword]
    rfl

end Token

namespace Lexer

/-! ### Pieces -/

/-- The next token is a marker. -/
def AtMarker (lx : Lexer) : Prop := ∃ t rest, lx.next = (.ok t, rest) ∧ t.kind = .marker

/-- A reader that reads these pieces up to the end of its text. -/
inductive Reads : Lexer → List Piece → Prop
  | last {lx rest : Lexer} {t : Token} : lx.next = (.ok t, rest) → t.kind = .endMarker →
      Reads lx [.token t]
  | token {lx rest : Lexer} {t : Token} {found : List Piece} : lx.next = (.ok t, rest) →
      t.kind ≠ .endMarker → ¬ (t.opensSite = true ∧ rest.AtMarker) → Reads rest found →
      Reads lx (.token t :: found)
  | site {lx mid behind rest : Lexer} {opener marker : Token} {s : Site} {found : List Piece} :
      lx.next = (.ok opener, mid) → opener.opensSite = true → mid.next = (.ok marker, behind) →
      marker.kind = .marker → behind.site opener marker = .ok (s, rest) → Reads rest found →
      Reads lx (.site s :: found)

theorem pieces_of_error {lx rest : Lexer} {e : LexError} (h : lx.next = (.error e, rest))
    (held : Option Token) : lx.pieces held = .error (.lexical e) := by
  rw [pieces]
  split
  · next heq =>
    rw [h] at heq
    cases heq
    rfl
  · next heq =>
    rw [h] at heq
    cases heq

theorem pieces_of_next {lx rest : Lexer} {t : Token} (h : lx.next = (.ok t, rest))
    (held : Option Token) :
    lx.pieces held =
      if t.kind = .endMarker then .ok (held.toList.map Piece.token ++ [.token t])
      else
        match held.filter fun opener => t.kind == .marker && opener.opensSite with
        | none => (rest.pieces (some t)).map (held.toList.map Piece.token ++ ·)
        | some opener =>
          match rest.site opener t with
          | .error e => .error e
          | .ok (s, rest) => (rest.pieces none).map (.site s :: ·) := by
  rw [pieces]
  split
  · next heq =>
    rw [h] at heq
    cases heq
  · next heq =>
    rw [h] at heq
    cases heq
    dsimp only
    by_cases hk : t.kind = .endMarker
    · rw [dif_pos hk, if_pos hk]
    · rw [dif_neg hk, if_neg hk]
      cases held.filter fun opener => t.kind == .marker && opener.opensSite with
      | none => rfl
      | some opener =>
        dsimp only
        cases rest.site opener t <;> rfl

theorem pieces_none {lx rest : Lexer} {t : Token} (h : lx.next = (.ok t, rest))
    (hk : t.kind ≠ .endMarker) : lx.pieces none = rest.pieces (some t) := by
  rw [pieces_of_next h, if_neg hk]
  show (rest.pieces (some t)).map ([] ++ ·) = _
  cases rest.pieces (some t) <;> rfl

/-- A token that opens no site is given out before what follows it. -/
theorem pieces_held {lx : Lexer} {opener : Token}
    (hplain : ¬ (opener.opensSite = true ∧ lx.AtMarker)) :
    lx.pieces (some opener) = (lx.pieces none).map (.token opener :: ·) := by
  match hnext : lx.next with
  | (.error e, rest) =>
    rw [pieces_of_error hnext, pieces_of_error hnext]
    rfl
  | (.ok t, rest) =>
    rw [pieces_of_next hnext, pieces_of_next hnext]
    split
    · rfl
    · have hfilter : (some opener).filter
          (fun opener => t.kind == .marker && opener.opensSite) = none := by
        rw [Option.filter_some, if_neg]
        intro hmarker
        rw [Bool.and_eq_true, beq_iff_eq] at hmarker
        exact hplain ⟨hmarker.2, t, rest, hnext, hmarker.1⟩
      rw [hfilter]
      show (rest.pieces (some t)).map _ = ((rest.pieces (some t)).map _).map _
      cases rest.pieces (some t) <;> rfl

/-- A marker behind a token that opens a site begins one. -/
theorem pieces_site {lx rest : Lexer} {opener marker : Token} (h : lx.next = (.ok marker, rest))
    (hk : marker.kind = .marker) (hopens : opener.opensSite = true) :
    lx.pieces (some opener) =
      match rest.site opener marker with
      | .error e => .error e
      | .ok (s, rest) => (rest.pieces none).map (.site s :: ·) := by
  rw [pieces_of_next h, if_neg (by simp [hk])]
  have hfilter : (some opener).filter
      (fun opener => marker.kind == .marker && opener.opensSite) = some opener := by
    simp [Option.filter_some, hk, hopens]
  rw [hfilter]

theorem reads_of_pieces : ∀ {lx : Lexer} {found : List Piece}, lx.pieces none = .ok found →
    lx.Reads found := by
  intro lx
  -- every piece uses up some of the reader's weight
  induction hw : lx.weight using Nat.strongRecOn generalizing lx with
  | ind w ih =>
    intro found h
    match hnext : lx.next with
    | (.error e, rest) => simp [pieces_of_error hnext] at h
    | (.ok t, rest) =>
      by_cases hk : t.kind = .endMarker
      · rw [pieces_of_next hnext, if_pos hk] at h
        cases h
        exact .last hnext hk
      rw [pieces_none hnext hk] at h
      have hweight := next_weight hnext hk
      by_cases hsite : t.opensSite = true ∧ rest.AtMarker
      · obtain ⟨hopens, marker, behind, hmarker, hkind⟩ := hsite
        rw [pieces_site hmarker hkind hopens] at h
        have hweight' := next_weight_le hmarker
        match hfound : behind.site t marker with
        | .error e => simp [hfound] at h
        | .ok (s, after) =>
          rw [hfound] at h
          obtain ⟨later, hlater, rfl⟩ := map_eq_ok h
          have hweight'' := site_weight_le hfound
          exact .site hnext hopens hmarker hkind hfound
            (ih after.weight (by omega) rfl hlater)
      · rw [pieces_held hsite] at h
        obtain ⟨later, hlater, rfl⟩ := map_eq_ok h
        exact .token hnext hk hsite (ih rest.weight (by omega) rfl hlater)

theorem Reads.pieces {lx : Lexer} {found : List Piece} (h : lx.Reads found) :
    lx.pieces none = .ok found := by
  induction h with
  | last hnext hk => rw [pieces_of_next hnext, if_pos hk]; rfl
  | token hnext hk hplain _ ih =>
    rw [pieces_none hnext hk, pieces_held hplain, ih]
    rfl
  | @site _ _ _ _ opener _ _ _ hnext hopens hmarker hk hsite _ ih =>
    have hopener : opener.kind ≠ .endMarker := by
      intro hend
      have hword := Token.isWord_of_opensSite hopens
      rw [hend] at hword
      exact Bool.noConfusion hword
    rw [pieces_none hnext hopener, pieces_site hmarker hk hopens, hsite]
    dsimp only
    rw [ih]
    rfl

/-- **The pieces of a source are what its reader reads.** -/
theorem pieces_iff_reads {lx : Lexer} {found : List Piece} :
    lx.pieces none = .ok found ↔ lx.Reads found :=
  ⟨reads_of_pieces, Reads.pieces⟩

open Scan

/-! ### Sites -/

theorem read_eq {lx rest : Lexer} {t : Token} (h : lx.read = .ok (t, rest)) :
    lx.next = (.ok t, rest) := by
  unfold read at h
  split at h
  · next hnext =>
    cases h
    exact hnext
  · simp at h

theorem quoterName_eq {lx rest : Lexer} {opener marker name : Token}
    (h : lx.quoterName opener marker = .ok (name, rest)) :
    lx.next = (.ok name, rest) ∧ name.kind = .name ∧
      name.start.offset = marker.stop.offset := by
  unfold quoterName at h
  obtain ⟨⟨first, behind⟩, hread, h⟩ := bind_eq_ok h
  dsimp only at h
  split at h
  · next hname =>
    cases h
    exact ⟨read_eq hread, hname⟩
  · cases h

/-- A header ends in a line end, with at most a comment before it. -/
theorem headerEnd_eq {lx rest : Lexer} {opener last : Token}
    (h : lx.headerEnd opener = .ok (last, rest)) :
    last.kind = .newline ∧
      (lx.next = (.ok last, rest) ∨
        ∃ comment mid, lx.next = (.ok comment, mid) ∧ comment.kind = .comment ∧
          mid.next = (.ok last, rest)) := by
  unfold headerEnd at h
  obtain ⟨⟨final, behind⟩, hlast, h⟩ := bind_eq_ok h
  dsimp only at h
  split at h
  swap
  · cases h
  next hnewline =>
  cases h
  refine ⟨hnewline, ?_⟩
  unfold readPastComment at hlast
  obtain ⟨⟨first, mid⟩, hfirst, hlast⟩ := bind_eq_ok hlast
  dsimp only at hlast
  split at hlast
  · next hcomment => exact .inr ⟨first, mid, read_eq hfirst, hcomment, read_eq hlast⟩
  · cases hlast
    exact .inl (read_eq hfirst)

/-- **The parts of an expression site**, each behind the one before it. -/
theorem expressionSite_eq {lx rest : Lexer} {opener marker : Token} {s : Site}
    (h : lx.expressionSite opener marker = .ok (s, rest)) :
    ∃ name after gap bar body, lx.quoterName opener marker = .ok (name, after) ∧
      after.takeUntil "|" = some (gap, bar) ∧ gap.text = "" ∧
      bar.takeUntil Site.expressionClose = some (body, rest) ∧
      s = {
        kind := .expression
        quoter := name.text
        body := body.text
        column := opener.start.column
        line := opener.start.line
        bodyLine := body.start.line
        sourceLine := opener.lineText
        start := opener.start.offset
        stop := rest.here.offset
        newlines := rest.here.line - opener.start.line } := by
  unfold expressionSite at h
  obtain ⟨⟨name, after⟩, hname, h⟩ := bind_eq_ok h
  dsimp only at h
  split at h
  · cases h
  next gap bar hbar =>
  split at h
  swap
  · cases h
  next hgap =>
  split at h
  · cases h
  next body _ hclose =>
  cases h
  exact ⟨name, after, gap, bar, body, hname, hbar, hgap, hclose, rfl⟩

/-- **The parts of a block site**, each behind the one before it. -/
theorem blockSite_eq {lx rest : Lexer} {opener marker : Token} {s : Site}
    (h : lx.blockSite opener marker = .ok (s, rest)) :
    ∃ name after colon behind last header block, lx.quoterName opener marker = .ok (name, after) ∧
      after.next = (.ok colon, behind) ∧ colon.isOperator ":" = true ∧
      behind.headerEnd opener = .ok (last, header) ∧
      header.takeIndentedBlock = some (block, rest) ∧
      s = {
        kind := .block
        quoter := name.text
        body := block.text
        column := opener.start.column
        line := opener.start.line
        bodyLine := block.start.line
        sourceLine := opener.lineText
        start := opener.start.offset
        stop := block.stop.offset
        newlines := block.stop.line - opener.start.line } := by
  unfold blockSite at h
  obtain ⟨⟨name, after⟩, hname, h⟩ := bind_eq_ok h
  obtain ⟨⟨colon, behind⟩, hcolon, h⟩ := bind_eq_ok h
  dsimp only at h
  split at h
  swap
  · cases h
  next hiscolon =>
  obtain ⟨⟨last, header⟩, hend, h⟩ := bind_eq_ok h
  dsimp only at h
  split at h
  · cases h
  next block _ hblock =>
  cases h
  exact ⟨name, after, colon, behind, last, header, block, hname, read_eq hcolon, hiscolon, hend,
    hblock, rfl⟩

/-- **A reader in front of a site.** Behind the blanks `gap`, the site takes the stretch `span` of
the text, and the reader goes on with `rest` as it would behind the site's call. -/
structure Quotes (lx : Lexer) (s : Site) (gap span : List Char) (rest : Lexer) : Prop where
  atToken : lx.AtToken
  blanks : gap = lx.ahead.take (blankLength lx.ahead)
  moves : lx.Moves (gap ++ span) rest
  quoter : isIdentifier s.quoter.toList = true
  start : s.start = lx.here.offset + byteLength gap
  stop : s.stop = rest.here.offset
  newlines : s.newlines = span.count '\n'
  /-- The stretch begins with the bracket or with the word `with`. -/
  opens : span.head? = some '[' ∨ span.head? = some 'w'
  /-- An expression ends with its bracket, never with a line feed. -/
  ends : span.getLast? = some '\n' → s.kind = .block
  /-- A block stands outside brackets, or its header could not end. -/
  block : s.kind = .block → lx.depth = 0 ∧ 0 < s.newlines
  leaves : ∃ b A p, rest = (s.leaves lx).elsewhere b A p

section

variable {lx mid behind after rest : Lexer} {opener marker name : Token} {s : Site}

/-- What a site begins with, up to the quoter's name. -/
theorem front_eq (hopener : lx.next = (.ok opener, mid)) (hopens : opener.opensSite = true)
    (hmarker : mid.next = (.ok marker, behind)) (hkind : marker.kind = .marker)
    (hname : behind.quoterName opener marker = .ok (name, after)) :
    lx.AtToken ∧ opener.start = lx.here.across (lx.ahead.take (blankLength lx.ahead)) ∧
      isIdentifier name.text.toList = true ∧
      (∃ middle, lx.Moves
        (lx.ahead.take (blankLength lx.ahead) ++ (opener.text.toList ++ middle)) after) ∧
      ∃ b A p, after = (lx.within (nestWord lx.depth opener.spelling)).elsewhere b A p := by
  obtain ⟨hat, htakes, -, _, _, _, hmid⟩ := next_of_word hopener (Token.isWord_of_opensSite hopens)
  obtain ⟨-, htakes₁, -, _, _, _, hbehind⟩ := next_of_word hmarker (by rw [hkind]; rfl)
  obtain ⟨hnext, hnamed, -⟩ := quoterName_eq hname
  obtain ⟨-, htakes₂, hlexeme, _, _, _, hafter⟩ := next_of_word hnext (by rw [hnamed]; rfl)
  refine ⟨hat, htakes.start, ?_, ?_, ?_⟩
  · rw [hnamed] at hlexeme
    exact isIdentifier_of_lexeme hlexeme
  · have hmoves := htakes.moves.trans (htakes₁.moves.trans htakes₂.moves)
    rw [List.append_assoc] at hmoves
    exact ⟨_, hmoves⟩
  · rw [Token.spelling, hkind] at hbehind
    rw [Token.spelling, hnamed] at hafter
    subst hmid hbehind hafter
    exact ⟨_, _, _, rfl⟩

/-- The lines and the bytes of a site are those of its stretch. -/
theorem span_eq {gap span : List Char} (hstart : opener.start = lx.here.across gap)
    (hmoves : lx.Moves (gap ++ span) rest) :
    opener.start.offset = lx.here.offset + byteLength gap ∧
      rest.here.line - opener.start.line = span.count '\n' := by
  have hline : rest.here.line = opener.start.line + span.count '\n' := by
    rw [hmoves.here, Position.across_append, ← hstart, Position.across_line]
  refine ⟨?_, by omega⟩
  rw [hstart, Position.across_offset]

theorem quotes_of_expressionSite (hopener : lx.next = (.ok opener, mid))
    (hopens : opener.opensSite = true) (hbracket : opener.spelling = (.operator, "["))
    (hmarker : mid.next = (.ok marker, behind)) (hkind : marker.kind = .marker)
    (hsite : behind.expressionSite opener marker = .ok (s, rest)) :
    ∃ gap span, lx.Quotes s gap span rest := by
  obtain ⟨name, after, gap, bar, body, hname, hbar, -, hclose, rfl⟩ := expressionSite_eq hsite
  obtain ⟨hat, hstart, hquoter, ⟨middle, hmoves⟩, b, A, p, hafter⟩ :=
    front_eq hopener hopens hmarker hkind hname
  obtain ⟨hmoves₁, b₁, A₁, p₁, hbar'⟩ := takeUntil_eq hbar
  obtain ⟨hmoves₂, b₂, A₂, p₂, hclose'⟩ := takeUntil_eq hclose
  have htext : opener.text.toList = ['['] := by
    rw [show opener.text = "[" from congrArg Prod.snd hbracket]
    rfl
  have hall := hmoves.trans (hmoves₁.trans hmoves₂)
  rw [htext, List.append_assoc, List.append_assoc] at hall
  obtain ⟨hoffset, hlines⟩ := span_eq hstart hall
  refine ⟨_, _, ⟨hat, rfl, hall, hquoter, hoffset, rfl, hlines, .inl rfl, ?_, by simp, ?_⟩⟩
  · intro hlast
    have hend : Site.expressionClose.toList = ['|', ']'] := by decide
    simp only [hend, List.getLast?_append] at hlast
    simp at hlast
  · rw [Site.leaves, if_neg (by simp)]
    rw [hbracket] at hafter
    subst hafter hbar' hclose'
    exact ⟨_, _, _, rfl⟩

/-- Before a block, the end of a header breaks its line outside brackets. -/
theorem header_eq {last : Token} (h : lx.headerEnd opener = .ok (last, rest))
    (hne : rest.ahead ≠ []) :
    lx.depth = 0 ∧ (∃ text, '\n' ∈ text ∧ lx.Moves text rest) ∧
      ∃ b A p, rest = { lx with atLineStart := true, lineHasContent := false }.elsewhere b A p := by
  obtain ⟨hk, hnext | ⟨comment, mid, hcomment, hck, hnext⟩⟩ := headerEnd_eq h
  · obtain ⟨gap, htakes⟩ := takes_next hnext
    rcases next_of_newline hnext hk with hnil | ⟨hdepth, hfeed, hrest⟩
    · exact absurd hnil hne
    · exact ⟨hdepth, ⟨_, List.mem_append_right gap hfeed, htakes.moves⟩, hrest⟩
  · obtain ⟨gap, htakes⟩ := takes_next hnext
    obtain ⟨gap₁, htakes₁⟩ := takes_next hcomment
    obtain ⟨_, _, _, hmid⟩ := next_of_comment hcomment hck
    rcases next_of_newline hnext hk with hnil | ⟨hdepth, hfeed, hrest⟩
    · exact absurd hnil hne
    · refine ⟨?_, ⟨_, ?_, htakes₁.moves.trans htakes.moves⟩, ?_⟩
      · rw [hmid] at hdepth
        exact hdepth
      · exact List.mem_append_right _ (List.mem_append_right gap hfeed)
      · rw [hmid] at hrest
        exact hrest

theorem quotes_of_blockSite (hopener : lx.next = (.ok opener, mid))
    (hopens : opener.opensSite = true) (hword : opener.spelling = (.name, "with"))
    (hmarker : mid.next = (.ok marker, behind)) (hkind : marker.kind = .marker)
    (hsite : behind.blockSite opener marker = .ok (s, rest)) :
    ∃ gap span, lx.Quotes s gap span rest := by
  have htext : opener.text.toList = ['w', 'i', 't', 'h'] := by
    rw [show opener.text = "with" from congrArg Prod.snd hword]
    rfl
  obtain ⟨name, after, colon, afterColon, last, header, block, hname, hcolon, hiscolon, hend, hblock,
    rfl⟩ := blockSite_eq hsite
  obtain ⟨hat, hstart, hquoter, ⟨middle, hmoves⟩, b, A, p, hafter⟩ :=
    front_eq hopener hopens hmarker hkind hname
  -- from the back to the front: only before a block does the header end in a line break
  obtain ⟨hmoves₃, hstop, hne, b₃, A₃, p₃, hrest⟩ := takeIndentedBlock_eq hblock
  obtain ⟨hdepth, ⟨headerText, hfeed, hmoves₂⟩, b₂, A₂, p₂, hheader⟩ := header_eq hend hne
  have hcolonWord : colon.spelling = (.operator, ":") := Token.spelling_of_isText hiscolon
  obtain ⟨-, htakes, -, b₁, A₁, p₁, hafterColon⟩ := next_of_word hcolon (by
    rw [show colon.kind = .operator from congrArg Prod.fst hcolonWord]
    rfl)
  have hall := hmoves.trans (htakes.moves.trans (hmoves₂.trans hmoves₃))
  rw [htext, List.append_assoc, List.append_assoc] at hall
  obtain ⟨hoffset, hlines⟩ := span_eq hstart hall
  rw [hword] at hafter
  rw [hcolonWord] at hafterColon
  have hzero : lx.depth = 0 := by
    subst hafter hafterColon
    exact hdepth
  have hpos : 0 < block.stop.line - opener.start.line := by
    rw [hstop, hlines, List.count_pos_iff]
    simp [hfeed]
  refine ⟨_, _, ⟨hat, rfl, hall, hquoter, hoffset, congrArg Position.offset hstop, ?_, .inr rfl,
    fun _ => rfl, fun _ => ⟨?_, hpos⟩, ?_⟩⟩
  · rw [hstop]
    exact hlines
  · exact hzero
  · rw [Site.leaves, if_pos ⟨rfl, hpos⟩, ← hzero]
    subst hafter hafterColon hheader hrest
    exact ⟨_, _, _, rfl⟩

/-- **What is recognized as a site takes a stretch of the text ahead.** -/
theorem quotes_of_site (hopener : lx.next = (.ok opener, mid)) (hopens : opener.opensSite = true)
    (hmarker : mid.next = (.ok marker, behind)) (hkind : marker.kind = .marker)
    (hsite : behind.site opener marker = .ok (s, rest)) : ∃ gap span, lx.Quotes s gap span rest := by
  unfold site at hsite
  split at hsite
  · next hname =>
    rcases Token.opensSite_cases hopens with hword | hbracket
    · exact quotes_of_blockSite hopener hopens hword hmarker hkind hsite
    · rw [show opener.kind = .operator from congrArg Prod.fst hbracket] at hname
      exact absurd hname (by decide)
  · next hname =>
    rcases Token.opensSite_cases hopens with hword | hbracket
    · exact absurd (congrArg Prod.fst hword) hname
    · exact quotes_of_expressionSite hopener hopens hbracket hmarker hkind hsite

end

end Lexer

end Quasiquote
