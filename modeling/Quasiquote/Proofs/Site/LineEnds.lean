import Mathlib.Data.List.Forall2
import Quasiquote.Proofs.Site.Layout
import Quasiquote.Proofs.Source.LineEnds
import Quasiquote.Site.Pragma

/-!
# The sites of a source with other line ends

A source without carriage returns, and the same source whose line ends are a carriage return and a line
feed, opt in or not together, and have the same sites at the same lines and columns.

## Main Definitions

* `withCrlf` — the source with other line ends
* `Site.Widens`, `RewriteError.Widens` — what corresponds to a site, and to an error

## Main Statements

* `Lexer.Widens.site`, `Lexer.Widens.pieces` — corresponding readers recognize corresponding sites
* `findSites_withCrlf` — line ends do not matter
-/

namespace Quasiquote

open Text Scan

/-! ### What corresponds -/

/-- The source with a carriage return before every line feed. -/
def withCrlf (source : String) : String := String.ofList (crlf source.toList)

/-- **The site that corresponds to a site.** Only its body has other line ends; which bytes of the source it
takes is left out. -/
structure Site.Widens (s s' : Site) : Prop where
  kind : s'.kind = s.kind
  quoter : s'.quoter = s.quoter
  body : s'.body = withCrlf s.body
  column : s'.column = s.column
  line : s'.line = s.line
  bodyLine : s'.bodyLine = s.bodyLine
  sourceLine : s'.sourceLine = s.sourceLine
  newlines : s'.newlines = s.newlines

/-- The error that corresponds to an error: the same one at the corresponding place. -/
inductive RewriteError.Widens : RewriteError → RewriteError → Prop
  | malformedSite {p p' : Position} (fault : SiteFault) (line : String) : p.Widens p' →
      Widens (.malformedSite p fault line) (.malformedSite p' fault line)
  | lexical {e e' : LexError} : e.Widens e' → Widens (.lexical e) (.lexical e')

/-- The piece that corresponds to a piece. -/
inductive Piece.Widens : Piece → Piece → Prop
  | token {t t' : Token} : t.Widens t' → Widens (.token t) (.token t')
  | site {s s' : Site} : s.Widens s' → Widens (.site s) (.site s')

namespace Token

variable {t t' : Token}

theorem Widens.isText (h : t.Widens t') (kind : Kind) {text : String} (hfeed : '\n' ∉ text.toList) :
    t'.isText kind text = t.isText kind text := by
  have htext : t'.text = text ↔ t.text = text := by
    rw [← String.toList_inj, ← String.toList_inj, h.text, crlf_eq_iff hfeed]
  rw [Bool.eq_iff_iff, Token.isText, Token.isText, h.kind]
  simp only [Bool.and_eq_true, beq_iff_eq, htext]

theorem Widens.opensSite (h : t.Widens t') : t'.opensSite = t.opensSite := by
  rw [Token.opensSite, isName, isOperator, h.isText _ (by decide), h.isText _ (by decide)]
  rfl

theorem Widens.lineText (h : t.Widens t') : t'.lineText = t.lineText := by
  rw [Token.lineText, h.trimmed]
  rfl

theorem Widens.fault (h : t.Widens t') (cause : SiteFault) :
    RewriteError.Widens (t.fault cause) (t'.fault cause) := by
  rw [Token.fault, Token.fault, h.lineText]
  exact .malformedSite cause _ h.start

end Token

namespace Lexer

/-! ### The parts of a site -/

/-- What two corresponding readers give: values that correspond, and corresponding readers behind them. -/
def Gives {α : Type} (R : α → α → Prop) (given given' : α × Lexer) : Prop :=
  R given.1 given'.1 ∧ given.2.Widens given'.2

section

variable {lx lx' : Lexer} {opener opener' marker marker' : Token}

theorem Widens.read (h : lx.Widens lx') :
    Corresponds RewriteError.Widens
      (fun given given' => Gives Token.Widens given given' ∧ lx.next = (.ok given.1, given.2))
      lx.read lx'.read := by
  have hstep := h.next
  unfold Lexer.read
  generalize hnext : lx.next = step, lx'.next = step' at hstep
  cases hstep with
  | token ht hrest => exact .ok ⟨⟨ht, hrest⟩, rfl⟩
  | error rest rest' he => exact .error (.lexical he)

theorem feed_notMem_name {rest : Lexer} {t : Token} (h : lx.next = (.ok t, rest))
    (hname : t.kind = .name) : '\n' ∉ t.text.toList := by
  obtain ⟨-, -, hlexeme, -⟩ := next_of_word h (by rw [hname]; rfl)
  rw [hname] at hlexeme
  exact feed_notMem_of_isIdentifier (isIdentifier_of_lexeme hlexeme)

/-- A token that stands directly behind a place does so in both sources. -/
theorem Widens.touches_iff (h : lx.Widens lx') {rest : Lexer} {t t' : Token} (ht : t.Widens t')
    (hnext : lx.next = (.ok t, rest)) :
    t'.start.offset = lx'.here.offset ↔ t.start.offset = lx.here.offset := by
  obtain ⟨gap, htakes⟩ := takes_next hnext
  have hoffset := htakes.start ▸ Position.across_offset lx.here gap
  have hline := htakes.start ▸ Position.across_line lx.here gap
  have hplace := ht.start.offset
  have hhere := h.here.offset
  -- without bytes between them, there are no lines between them
  have hgap : byteLength gap = 0 → gap.count '\n' = 0 := by
    intro hzero
    by_cases hne : gap = []
    · simp [hne]
    · have := byteLength_pos hne
      omega
  omega

theorem Widens.quoterName (h : lx.Widens lx') (ho : opener.Widens opener')
    (hm : marker.stop.offset = lx.here.offset) (hm' : marker'.stop.offset = lx'.here.offset) :
    Corresponds RewriteError.Widens (Gives fun name name' => name'.text = name.text)
      (lx.quoterName opener marker) (lx'.quoterName opener' marker') := by
  refine h.read.bind ?_
  rintro ⟨name, rest⟩ ⟨name', rest'⟩ ⟨⟨hname, hrest⟩, hnext⟩
  have htest : (name'.kind = .name ∧ name'.start.offset = marker'.stop.offset) ↔
      (name.kind = .name ∧ name.start.offset = marker.stop.offset) := by
    rw [hm, hm', h.touches_iff hname hnext, hname.kind]
  dsimp only
  by_cases hnamed : name.kind = .name ∧ name.start.offset = marker.stop.offset
  · rw [if_pos hnamed, if_pos (htest.2 hnamed)]
    refine .ok ⟨String.toList_inj.1 ?_, hrest⟩
    exact hname.text.trans (crlf_of_notMem (feed_notMem_name hnext hnamed.1))
  · rw [if_neg hnamed, if_neg fun hnamed' => hnamed (htest.1 hnamed')]
    exact .error (ho.fault _)

theorem Widens.headerEnd (h : lx.Widens lx') (ho : opener.Widens opener') :
    Corresponds RewriteError.Widens (Gives Token.Widens) (lx.headerEnd opener)
      (lx'.headerEnd opener') := by
  have hlast : Corresponds RewriteError.Widens (Gives Token.Widens) lx.readPastComment
      lx'.readPastComment := by
    refine h.read.bind ?_
    rintro ⟨first, rest⟩ ⟨first', rest'⟩ ⟨⟨hfirst, hrest⟩, -⟩
    dsimp only
    rw [hfirst.kind]
    split
    · exact hrest.read.mono fun _ _ hgiven => hgiven.1
    · exact .ok ⟨hfirst, hrest⟩
  refine hlast.bind ?_
  rintro ⟨last, rest⟩ ⟨last', rest'⟩ ⟨hend, hrest⟩
  dsimp only
  rw [hend.kind]
  split
  · exact .ok ⟨hend, hrest⟩
  · exact .error (ho.fault _)

/-- The raw text that corresponds to raw text. -/
structure RawWidens (raw raw' : RawText) : Prop where
  text : raw'.text = withCrlf raw.text
  start : raw.start.Widens raw'.start
  stop : raw.stop.Widens raw'.stop

theorem Widens.takeUntil (h : lx.Widens lx') (close : String) (hfeed : '\n' ∉ close.toList)
    (hreturn : '\r' ∉ close.toList) (hne : close.toList ≠ []) :
    Option.Rel (Gives RawWidens) (lx.takeUntil close) (lx'.takeUntil close) := by
  unfold Lexer.takeUntil
  rw [h.ahead, crlf_findLength hfeed hreturn hne, ← h.ahead]
  cases hn : findLength close.toList lx.ahead with
  | none => exact .none
  | some n =>
    have hclose := h.advance (n := n) rfl
    have hlength : crlfLength (lx.advance n).ahead close.toList.length = close.toList.length := by
      have hbegins := List.prefix_iff_eq_take.1 (findLength_spec hn)
      have hle := (findLength_spec hn).length_le
      exact crlfLength_eq hle (by rw [advance_ahead, ← hbegins]; exact hfeed)
    refine .some ⟨⟨?_, h.here, hclose.here⟩, { hclose.advance hlength with
      depth := by rw [h.depth], lineHasContent := rfl }⟩
    simp [withCrlf, h.ahead]

theorem Widens.takeIndentedBlock (h : lx.Widens lx') :
    Option.Rel (Gives RawWidens) lx.takeIndentedBlock lx'.takeIndentedBlock := by
  have hlines : regionLines lx'.indent none (physicalLines lx'.ahead) =
      (regionLines lx.indent none (physicalLines lx.ahead)).map crlf := by
    rw [h.indent, h.ahead, physicalLines_crlf, crlf_regionLines]
  have hbegins := flatten_regionLines_prefix lx.indent none lx.ahead
  unfold Lexer.takeIndentedBlock
  rw [hlines]
  cases hfound : regionLines lx.indent none (physicalLines lx.ahead) with
  | nil => exact .none
  | cons line lines =>
    rw [hfound] at hbegins
    have htext : ((line :: lines).map crlf).flatten = crlf (line :: lines).flatten :=
      (crlf_flatten _).symm
    have hlength : crlfLength lx.ahead (line :: lines).flatten.length =
        (crlf (line :: lines).flatten).length := by
      rw [crlfLength, ← List.prefix_iff_eq_take.1 hbegins]
    have hbehind := h.advance hlength
    simp only [List.map_cons] at htext ⊢
    rw [htext]
    refine .some ⟨⟨?_, h.here, hbehind.here⟩,
      { hbehind with atLineStart := rfl, lineHasContent := rfl }⟩
    simp [withCrlf]

/-! ### Sites -/

theorem Widens.blockSite (h : lx.Widens lx') (ho : opener.Widens opener')
    (hm : marker.stop.offset = lx.here.offset) (hm' : marker'.stop.offset = lx'.here.offset) :
    Corresponds RewriteError.Widens (Gives Site.Widens) (lx.blockSite opener marker)
      (lx'.blockSite opener' marker') := by
  refine (h.quoterName ho hm hm').bind ?_
  rintro ⟨name, rest⟩ ⟨name', rest'⟩ ⟨hname, hrest⟩
  refine hrest.read.bind ?_
  rintro ⟨colon, behind⟩ ⟨colon', behind'⟩ ⟨⟨hcolon, hbehind⟩, -⟩
  have hiscolon : colon'.isOperator ":" = colon.isOperator ":" := hcolon.isText _ (by decide)
  dsimp only
  rw [hiscolon]
  split
  swap
  · exact .error (ho.fault _)
  refine (hbehind.headerEnd ho).bind ?_
  rintro ⟨last, header⟩ ⟨last', header'⟩ ⟨-, hheader⟩
  have hblock := hheader.takeIndentedBlock
  dsimp only at hheader ⊢
  generalize header.takeIndentedBlock = found, header'.takeIndentedBlock = found' at hblock
  cases hblock with
  | none => exact .error (ho.fault _)
  | some hgiven =>
    obtain ⟨hraw, hafter⟩ := hgiven
    refine .ok ⟨?_, hafter⟩
    exact {
      kind := rfl
      quoter := hname
      body := hraw.text
      column := ho.start.column
      line := ho.start.line
      bodyLine := hraw.start.line
      sourceLine := ho.lineText
      newlines := by simp only [hraw.stop.line, ho.start.line] }

theorem Widens.expressionSite (h : lx.Widens lx') (ho : opener.Widens opener')
    (hm : marker.stop.offset = lx.here.offset) (hm' : marker'.stop.offset = lx'.here.offset) :
    Corresponds RewriteError.Widens (Gives Site.Widens) (lx.expressionSite opener marker)
      (lx'.expressionSite opener' marker') := by
  refine (h.quoterName ho hm hm').bind ?_
  rintro ⟨name, rest⟩ ⟨name', rest'⟩ ⟨hname, hrest⟩
  have hbar := hrest.takeUntil "|" (by decide) (by decide) (by decide)
  dsimp only at hrest ⊢
  generalize rest.takeUntil "|" = found, rest'.takeUntil "|" = found' at hbar
  cases hbar with
  | none => exact .error (ho.fault _)
  | @some given given' hgiven =>
    obtain ⟨⟨gap, bar⟩, ⟨gap', bar'⟩⟩ := given, given'
    obtain ⟨hgap, hbehind⟩ := hgiven
    have hempty : gap'.text = "" ↔ gap.text = "" := by
      rw [hgap.text, withCrlf, ← String.toList_inj, ← String.toList_inj, String.toList_ofList]
      exact crlf_eq_iff (by simp)
    dsimp only
    by_cases hnone : gap.text = ""
    swap
    · rw [if_neg hnone, if_neg fun hnone' => hnone (hempty.1 hnone')]
      exact .error (ho.fault _)
    rw [if_pos hnone, if_pos (hempty.2 hnone)]
    have hclose := hbehind.takeUntil Site.expressionClose (by decide) (by decide) (by decide)
    dsimp only at hbehind hclose
    generalize bar.takeUntil Site.expressionClose = found,
      bar'.takeUntil Site.expressionClose = found' at hclose
    cases hclose with
    | none => exact .error (ho.fault _)
    | some hgiven =>
      obtain ⟨hraw, hafter⟩ := hgiven
      refine .ok ⟨?_, hafter⟩
      exact {
        kind := rfl
        quoter := hname
        body := hraw.text
        column := ho.start.column
        line := ho.start.line
        bodyLine := hraw.start.line
        sourceLine := ho.lineText
        newlines := by simp only [hafter.here.line, ho.start.line] }

/-- **Corresponding readers recognize corresponding sites.** -/
theorem Widens.site (h : lx.Widens lx') (ho : opener.Widens opener')
    (hm : marker.stop.offset = lx.here.offset) (hm' : marker'.stop.offset = lx'.here.offset) :
    Corresponds RewriteError.Widens (Gives Site.Widens) (lx.site opener marker)
      (lx'.site opener' marker') := by
  unfold Lexer.site
  rw [ho.kind]
  split
  · exact h.blockSite ho hm hm'
  · exact h.expressionSite ho hm hm'

end

/-! ### Pieces -/

/-- The tokens that two corresponding readers hold back. -/
theorem opener_widens {held held' : Option Token} (h : Option.Rel Token.Widens held held')
    {t t' : Token} (ht : t.Widens t') :
    Option.Rel Token.Widens
      (held.filter fun opener => t.kind == .marker && opener.opensSite)
      (held'.filter fun opener => t'.kind == .marker && opener.opensSite) := by
  cases h with
  | none => exact .none
  | some ho =>
    rw [Option.filter_some, Option.filter_some, ht.kind, ho.opensSite]
    split
    · exact .some ho
    · exact .none

theorem before_widens {held held' : Option Token} (h : Option.Rel Token.Widens held held') :
    List.Forall₂ Piece.Widens (held.toList.map Piece.token) (held'.toList.map Piece.token) := by
  cases h with
  | none => exact .nil
  | some ht => exact .cons (.token ht) .nil

/-- **Corresponding readers read corresponding pieces.** -/
theorem Widens.pieces {lx lx' : Lexer} (h : lx.Widens lx') {held held' : Option Token}
    (hheld : Option.Rel Token.Widens held held') :
    Corresponds RewriteError.Widens (List.Forall₂ Piece.Widens) (lx.pieces held)
      (lx'.pieces held') := by
  -- every piece uses up some of the reader's weight
  induction hw : lx.weight using Nat.strongRecOn generalizing lx lx' held held' with
  | ind w ih =>
    have hstep := h.next
    generalize hnext : lx.next = step, hnext' : lx'.next = step' at hstep
    cases hstep with
    | error rest rest' he =>
      rw [pieces_of_error hnext, pieces_of_error hnext']
      exact .error (.lexical he)
    | @token t t' rest rest' ht hrest =>
      rw [pieces_of_next hnext, pieces_of_next hnext', ht.kind]
      split
      · exact .ok (List.rel_append (before_widens hheld) (.cons (.token ht) .nil))
      next hk =>
      have hweight := next_weight hnext hk
      have hopener := opener_widens hheld ht
      rw [ht.kind] at hopener
      generalize held.filter _ = found, held'.filter _ = found' at hopener
      cases hopener with
      | none =>
        refine (ih _ (by omega) hrest (.some ht) rfl).map fun _ _ hpieces => ?_
        exact List.rel_append (before_widens hheld) hpieces
      | @some opener opener' ho =>
        have hmarker := (takes_next hnext).elim fun _ htakes => htakes.stop_offset
        have hmarker' := (takes_next hnext').elim fun _ htakes => htakes.stop_offset
        have hsite := hrest.site ho hmarker hmarker'
        dsimp only
        generalize hfound : rest.site opener t = site, rest'.site opener' t' = site' at hsite
        cases hsite with
        | error he => exact .error he
        | ok hgiven =>
          obtain ⟨hsite, hafter⟩ := hgiven
          have hweight' := site_weight_le hfound
          refine (ih _ (by omega) hafter .none rfl).map fun _ _ hpieces => ?_
          exact .cons (.site hsite) hpieces

end Lexer

/-! ### Whole sources -/

theorem isEnabled_withCrlf {source : String} (h : '\r' ∉ source.toList) :
    Pragma.isEnabled (withCrlf source) = Pragma.isEnabled source := by
  rw [Pragma.isEnabled, withCrlf, String.toList_ofList, stripMark_crlf,
    lines_crlf (notMem_stripMark h)]
  rfl

theorem Piece.Widens.site? {piece piece' : Piece} (h : piece.Widens piece') :
    Option.Rel Site.Widens piece.site? piece'.site? := by
  cases h with
  | token => exact .none
  | site hs => exact .some hs

/-- **Line ends do not matter.** With a carriage return before every line feed, a source without carriage
returns opts in or not as before. It has the same sites on the same lines and in the same columns, their
bodies with the other line ends; or it fails in the same way at the same line and column. -/
theorem findSites_withCrlf {source : String} (h : '\r' ∉ source.toList) :
    Pragma.isEnabled (withCrlf source) = Pragma.isEnabled source ∧
      Corresponds RewriteError.Widens (List.Forall₂ Site.Widens) (findSites source)
        (findSites (withCrlf source)) := by
  refine ⟨isEnabled_withCrlf h, ?_⟩
  have hreader : (Lexer.ofSource source).Widens (Lexer.ofSource (withCrlf source)) := by
    rw [Lexer.ofSource, Lexer.ofSource, withCrlf, String.toList_ofList, stripMark_crlf]
    exact Lexer.widens_ofChars (notMem_stripMark h)
  refine (hreader.pieces .none).map fun found found' hfound => ?_
  rw [List.forall₂_map_left_iff, List.forall₂_map_right_iff]
  exact (List.rel_filterMap (fun _ _ hpiece => hpiece.site?) hfound).imp fun _ _ hs => { hs with }

/-- A source with a block below a comment, and an expression whose string joins two lines. -/
def joinedSource : String :=
  "# coding: quasiquotes\nwith $q: # q\n  a\n\n  b\nx = 'y\\\nz' + [$q|c\nd|]\n"

theorem joinedSource_withCrlf :
    '\r' ∉ joinedSource.toList ∧
      (∃ sites, sites.length = 2 ∧ findSites joinedSource = .ok sites) ∧
      Pragma.isEnabled (withCrlf joinedSource) = Pragma.isEnabled joinedSource ∧
      Corresponds RewriteError.Widens (List.Forall₂ Site.Widens) (findSites joinedSource)
        (findSites (withCrlf joinedSource)) := by
  have hsites : findSites joinedSource = .ok
      [{ kind := .block, quoter := "q", body := "  a\n\n  b\n", column := 0, line := 2, bodyLine := 3,
         sourceLine := "with $q: # q", start := 22, stop := 44, newlines := 4 },
       { kind := .expression, quoter := "q", body := "c\nd", column := 5, line := 7, bodyLine := 7,
         sourceLine := "z' + [$q|c", start := 57, stop := 66, newlines := 1 }] := by
    decide +kernel
  exact ⟨by decide, ⟨_, rfl, hsites⟩, findSites_withCrlf (by decide)⟩

end Quasiquote
