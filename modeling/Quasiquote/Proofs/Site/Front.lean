import Quasiquote.Proofs.Site.Layout

/-!
# Where the body of a site stands

A site begins with an opener, a marker and the name of its quoter, and its body comes behind that. This
file says what exactly stands before a body, and at which position the body therefore begins.

## Main Definitions

* `Site.Opening` — what can stand between the beginning of a site and its body
* `Site.Stands` — a site at its place in a text
* `Site.Plain` — an opening without anything that could be left out

## Main Statements

* `Lexer.stands_of_site` — a recognized site stands in the text ahead
* `Site.exists_stands` — every site of a source stands in it
* `Site.Stands.column_block` — the body of a block begins at the beginning of a line
* `Site.Stands.plain_iff_block`, `Site.Stands.plain_iff_expression` — where the bodies of plain sites
  begin, and those of no others
-/

namespace Quasiquote

/-! ### Positions -/

/-- A position with some more bytes before it. -/
def Position.shift (p : Position) (bytes : Nat) : Position := { p with offset := p.offset + bytes }

theorem Position.across_shift (p : Position) (bytes : Nat) (text : List Char) :
    (p.shift bytes).across text = (p.across text).shift bytes := by
  induction text generalizing p with
  | nil => rfl
  | cons c rest ih =>
    have hpast : (p.shift bytes).past c = (p.past c).shift bytes := by
      unfold past shift
      split
      · simp [Nat.add_right_comm]
      · simp [Nat.add_right_comm]
    rw [across_cons, across_cons, hpast, ih]

/-- On one line, the column counts the characters. -/
theorem Position.across_oneLine (p : Position) {text : List Char} (h : '\n' ∉ text) :
    (p.across text).column = p.column + text.length := by
  rw [across_eq_along p h]
  rfl

/-! ### Parts of a site -/

namespace Site

/-- What an expression ends with behind its body. Nothing stands behind the body of a block. -/
def Kind.close : Kind → List Char
  | .block => []
  | .expression => Site.expressionClose.toList

/-- The text between the beginning of a site and its body. Something may stand between the opener and
the marker, and behind the name a block has its header up to the line feed. -/
def Opening (s : Site) (front : List Char) : Prop :=
  match s.kind with
  | .block => ∃ gap header, front =
      'w' :: 'i' :: 't' :: 'h' :: (gap ++ '$' :: (s.quoter.toList ++ (header ++ ['\n'])))
  | .expression => ∃ gap, front = '[' :: (gap ++ '$' :: (s.quoter.toList ++ ['|']))

/-- A site in a text that begins at the position `p`. Its body stands between `front` and what closes
it. -/
structure Stands (p : Position) (text : List Char) (s : Site) (before front after : List Char) :
    Prop where
  text : text = before ++ (front ++ (s.body.toList ++ (s.kind.close ++ after)))
  identifier : Scan.isIdentifier s.quoter.toList = true
  opening : s.Opening front
  start : s.start = (p.across before).offset
  stop : s.stop = (p.across (before ++ (front ++ (s.body.toList ++ s.kind.close)))).offset
  line : s.line = (p.across before).line
  column : s.column = (p.across before).column
  bodyLine : s.bodyLine = (p.across (before ++ front)).line

/-- A site behind some text stands in the whole of it. -/
theorem Stands.behind {lx rest : Lexer} {moved before front after : List Char} {s : Site}
    (hmoves : lx.Moves moved rest) (h : s.Stands rest.here rest.ahead before front after) :
    s.Stands lx.here lx.ahead (moved ++ before) front after where
  text := by rw [hmoves.ahead, h.text, List.append_assoc]
  identifier := h.identifier
  opening := h.opening
  start := by rw [h.start, hmoves.here, Position.across_append]
  stop := by rw [h.stop, hmoves.here, List.append_assoc, Position.across_append _ moved]
  line := by rw [h.line, hmoves.here, Position.across_append]
  column := by rw [h.column, hmoves.here, Position.across_append]
  bodyLine := by rw [h.bodyLine, hmoves.here, List.append_assoc, Position.across_append _ moved]

/-- A site stands in the same place if there is something before the whole text. -/
theorem Stands.shift {p : Position} {text before front after : List Char} {s : Site}
    (h : s.Stands p text before front after) (bytes : Nat) :
    (s.shift bytes).Stands (p.shift bytes) text before front after where
  text := h.text
  identifier := h.identifier
  opening := h.opening
  start := by
    rw [Position.across_shift]
    exact congrArg (· + bytes) h.start
  stop := by
    rw [Position.across_shift]
    exact congrArg (· + bytes) h.stop
  line := by
    rw [Position.across_shift]
    exact h.line
  column := by
    rw [Position.across_shift]
    exact h.column
  bodyLine := by
    rw [Position.across_shift]
    exact h.bodyLine

end Site

namespace Lexer

open Scan

/-- The marker is its one character. -/
theorem text_of_marker {x text : List Char} (h : lexeme (x ++ text) = some (.marker, x.length)) :
    x = ['$'] := by
  cases x with
  | nil =>
    have hpos := (lexeme_length h).1
    exact absurd hpos (Nat.lt_irrefl 0)
  | cons c x =>
    rcases lexeme_cases h with ⟨rfl, -, hlength⟩ | ⟨-, hkind, -⟩ | ⟨-, hliteral⟩ | ⟨-, -, -, hname⟩ |
      ⟨-, -, -, hkind, -⟩
    · rw [List.length_eq_zero_iff.1 (Nat.succ.inj hlength)]
    · cases hkind
    · cases literalLexeme_kind hliteral
    · rcases nameLexeme_kind hname with hkind | hkind
      · cases hkind
      · cases hkind
    · cases hkind

/-- Where the source goes on behind it, the end of a logical line ends in a line feed. -/
theorem newline_ends {lx rest : Lexer} {t : Token} (h : lx.next = (.ok t, rest))
    (hk : t.kind = .newline) (hne : rest.ahead ≠ []) : ∃ front, t.text.toList = front ++ ['\n'] := by
  obtain ⟨-, hline⟩ := lineToken_of_next h (by simp [hk])
  rcases lineToken_kinds hline with ⟨-, hnil, hend⟩ | ⟨hkind, -⟩ | ⟨-, hpos, hbreak⟩ | ⟨hword, -⟩
  · exact absurd ((kind_endOfSource hend).2.trans hnil) hne
  · simp [hk] at hkind
  · obtain ⟨front, hfront⟩ := break_ends hpos
    cases hbreak
    exact ⟨front, by simpa [token] using hfront⟩
  · simp [Token.Kind.isWord, hk] at hword

/-- Before a block, a header ends in a line feed. -/
theorem headerEnd_ends {lx rest : Lexer} {opener last : Token}
    (h : lx.headerEnd opener = .ok (last, rest)) (hne : rest.ahead ≠ []) :
    ∃ header, lx.Moves (header ++ ['\n']) rest := by
  obtain ⟨hk, hnext | ⟨comment, mid, hcomment, -, hnext⟩⟩ := headerEnd_eq h
  · obtain ⟨gap, htakes⟩ := takes_next hnext
    obtain ⟨front, hfront⟩ := newline_ends hnext hk hne
    have hmoves := htakes.moves
    rw [hfront, ← List.append_assoc] at hmoves
    exact ⟨_, hmoves⟩
  · obtain ⟨gap, htakes⟩ := takes_next hnext
    obtain ⟨gap₁, htakes₁⟩ := takes_next hcomment
    obtain ⟨front, hfront⟩ := newline_ends hnext hk hne
    have hmoves := htakes₁.moves.trans htakes.moves
    rw [hfront, ← List.append_assoc gap, ← List.append_assoc] at hmoves
    exact ⟨_, hmoves⟩

section

variable {lx mid behind after rest : Lexer} {opener marker name : Token} {s : Site}

/-- A site begins with its opener, the marker and the name that touches it. -/
theorem moves_name (hopener : lx.next = (.ok opener, mid)) (hopens : opener.opensSite = true)
    (hmarker : mid.next = (.ok marker, behind)) (hkind : marker.kind = .marker)
    (hname : behind.quoterName opener marker = .ok (name, after)) :
    ∃ before gap, opener.start = lx.here.across before ∧ isIdentifier name.text.toList = true ∧
      lx.Moves (before ++ (opener.text.toList ++ (gap ++ '$' :: name.text.toList))) after := by
  obtain ⟨-, htakes, -⟩ := next_of_word hopener (Token.isWord_of_opensSite hopens)
  obtain ⟨-, htakes₁, hlexeme₁, -⟩ := next_of_word hmarker (by rw [hkind]; rfl)
  obtain ⟨hnext, hnamed, htouches⟩ := quoterName_eq hname
  obtain ⟨-, htakes₂, hlexeme₂, -⟩ := next_of_word hnext (by rw [hnamed]; rfl)
  rw [hkind] at hlexeme₁
  rw [hnamed] at hlexeme₂
  -- nothing stands between the marker and the name
  have hgap : behind.ahead.take (blankLength behind.ahead) = [] := by
    by_contra hne
    have hpos := byteLength_pos hne
    rw [htakes₁.stop_offset, htakes₂.start, Position.across_offset] at htouches
    omega
  have hmoves := htakes.moves.trans (htakes₁.moves.trans htakes₂.moves)
  rw [hgap, text_of_marker hlexeme₁] at hmoves
  refine ⟨_, mid.ahead.take (blankLength mid.ahead), htakes.start, isIdentifier_of_lexeme hlexeme₂,
    ?_⟩
  simpa only [List.append_assoc, List.nil_append, List.cons_append] using hmoves

theorem stands_of_expressionSite (hopener : lx.next = (.ok opener, mid))
    (hopens : opener.opensSite = true) (hbracket : opener.spelling = (.operator, "["))
    (hmarker : mid.next = (.ok marker, behind)) (hkind : marker.kind = .marker)
    (hsite : behind.expressionSite opener marker = .ok (s, rest)) :
    ∃ before front, s.Stands lx.here lx.ahead before front rest.ahead := by
  obtain ⟨name, after, gap, bar, body, hname, hbar, hnone, hclose, rfl⟩ := expressionSite_eq hsite
  obtain ⟨before, blanks, hstart, hident, hmoves⟩ := moves_name hopener hopens hmarker hkind hname
  have hmoves₁ := hmoves.trans (takeUntil_eq hbar).1
  have hmoves₂ := hmoves₁.trans (takeUntil_eq hclose).1
  have htext : opener.text.toList = ['['] := by
    rw [show opener.text = "[" from congrArg Prod.snd hbracket]
    rfl
  have hbarText : "|".toList = ['|'] := rfl
  rw [hnone, htext, hbarText] at hmoves₁ hmoves₂
  have hfront : before ++ (['['] ++ (blanks ++ '$' :: name.text.toList)) ++
      ("".toList ++ ['|']) =
        before ++ '[' :: (blanks ++ '$' :: (name.text.toList ++ ['|'])) := by simp
  rw [hfront] at hmoves₁ hmoves₂
  refine ⟨before, _, ?_, hident, ⟨blanks, rfl⟩, ?_, ?_, ?_, ?_, ?_⟩
  · rw [hmoves₂.ahead]
    simp [Site.Kind.close]
  · rw [hstart]
  · show rest.here.offset = _
    rw [hmoves₂.here]
    simp [Site.Kind.close]
  · rw [hstart]
  · rw [hstart]
  · show body.start.line = _
    rw [takeUntil_start hclose, hmoves₁.here]

theorem stands_of_blockSite (hopener : lx.next = (.ok opener, mid))
    (hopens : opener.opensSite = true) (hword : opener.spelling = (.name, "with"))
    (hmarker : mid.next = (.ok marker, behind)) (hkind : marker.kind = .marker)
    (hsite : behind.blockSite opener marker = .ok (s, rest)) :
    ∃ before front, s.Stands lx.here lx.ahead before front rest.ahead := by
  obtain ⟨name, after, colon, afterColon, last, header, block, hname, hcolon, -, hend, hblock, rfl⟩ :=
    blockSite_eq hsite
  obtain ⟨before, blanks, hstart, hident, hmoves⟩ := moves_name hopener hopens hmarker hkind hname
  obtain ⟨hmovesBlock, hstop, hne, -⟩ := takeIndentedBlock_eq hblock
  obtain ⟨gap, htakes⟩ := takes_next hcolon
  obtain ⟨ending, hmovesEnd⟩ := headerEnd_ends hend hne
  have hmoves₁ := hmoves.trans (htakes.moves.trans hmovesEnd)
  have htext : opener.text.toList = ['w', 'i', 't', 'h'] := by
    rw [show opener.text = "with" from congrArg Prod.snd hword]
    rfl
  have hfront : before ++ (opener.text.toList ++ (blanks ++ '$' :: name.text.toList)) ++
      (gap ++ colon.text.toList ++ (ending ++ ['\n'])) =
        before ++ 'w' :: 'i' :: 't' :: 'h' :: (blanks ++ '$' :: (name.text.toList ++
          ((gap ++ colon.text.toList ++ ending) ++ ['\n']))) := by
    rw [htext]
    simp
  rw [hfront] at hmoves₁
  have hmoves₂ := hmoves₁.trans hmovesBlock
  refine ⟨before, _, ?_, hident, ⟨blanks, gap ++ colon.text.toList ++ ending, rfl⟩, ?_, ?_, ?_, ?_, ?_⟩
  · rw [hmoves₂.ahead]
    simp [Site.Kind.close]
  · rw [hstart]
  · show block.stop.offset = _
    rw [hstop, hmoves₂.here]
    simp [Site.Kind.close]
  · rw [hstart]
  · rw [hstart]
  · show block.start.line = _
    rw [takeIndentedBlock_start hblock, hmoves₁.here]

/-- **A recognized site stands in the text ahead.** -/
theorem stands_of_site (hopener : lx.next = (.ok opener, mid)) (hopens : opener.opensSite = true)
    (hmarker : mid.next = (.ok marker, behind)) (hkind : marker.kind = .marker)
    (hsite : behind.site opener marker = .ok (s, rest)) :
    ∃ before front, s.Stands lx.here lx.ahead before front rest.ahead := by
  unfold site at hsite
  rcases Token.opensSite_cases hopens with hword | hbracket
  · have hnamed : opener.kind = .name := congrArg Prod.fst hword
    rw [if_pos hnamed] at hsite
    exact stands_of_blockSite hopener hopens hword hmarker hkind hsite
  · have hoperator : opener.kind = .operator := congrArg Prod.fst hbracket
    rw [if_neg (by rw [hoperator]; decide)] at hsite
    exact stands_of_expressionSite hopener hopens hbracket hmarker hkind hsite

end

/-- All sites among the pieces of a text stand in it. -/
theorem Reads.stands {lx : Lexer} {found : List Piece} (h : lx.Reads found) :
    ∀ s ∈ found.filterMap Piece.site?, ∃ before front after,
      s.Stands lx.here lx.ahead before front after := by
  induction h with
  | last _ _ =>
    intro s hs
    exact absurd hs List.not_mem_nil
  | token hnext _ _ _ ih =>
    intro s hs
    obtain ⟨gap, htakes⟩ := takes_next hnext
    obtain ⟨before, front, after, hstands⟩ := ih s hs
    exact ⟨_, front, after, hstands.behind htakes.moves⟩
  | site hopener hopens hmarker hkind hsite _ ih =>
    intro s hs
    rcases List.mem_cons.1 hs with rfl | hs
    · obtain ⟨before, front, hstands⟩ := stands_of_site hopener hopens hmarker hkind hsite
      exact ⟨before, front, _, hstands⟩
    · obtain ⟨gap, span, hquotes⟩ := quotes_of_site hopener hopens hmarker hkind hsite
      obtain ⟨before, front, after, hstands⟩ := ih s hs
      exact ⟨_, front, after, hstands.behind hquotes.moves⟩

end Lexer

/-! ### Where bodies begin -/

/-- Where the text of a source begins, behind the byte order mark if there is one. -/
def textOrigin (source : String) : Position := Position.origin.shift (markLength source.toList)

namespace Site

/-- **Every site of a source stands in it.** -/
theorem exists_stands {source : String} {sites : List Site} (h : findSites source = .ok sites)
    {s : Site} (hs : s ∈ sites) : ∃ before front after,
      s.Stands (textOrigin source) (stripMark source.toList) before front after := by
  obtain ⟨found, hfound, rfl⟩ := map_eq_ok h
  obtain ⟨unshifted, hmem, rfl⟩ := List.mem_map.1 hs
  obtain ⟨before, front, after, hstands⟩ := (Lexer.reads_of_pieces hfound).stands unshifted hmem
  exact ⟨before, front, after, hstands.shift _⟩

/-- An opening in which nothing could be left out: an expression begins with bracket, marker, name and
bar, and the header of a block stands on one line. -/
def Plain (s : Site) (front : List Char) : Prop :=
  match s.kind with
  | .block => front.count '\n' = 1
  | .expression => front = '[' :: '$' :: (s.quoter.toList ++ ['|'])

namespace Stands

variable {p : Position} {text before front after : List Char} {s : Site}

theorem bodyLine_eq (h : s.Stands p text before front after) :
    (p.across (before ++ front)).line = s.line + front.count '\n' := by
  rw [Position.across_append, Position.across_line, h.line]

/-- A site is as long as its parts. -/
theorem stop_eq (h : s.Stands p text before front after) :
    s.stop = s.start + byteLength (front ++ (s.body.toList ++ s.kind.close)) := by
  rw [h.stop, h.start, Position.across_append, Position.across_offset _ (front ++ _)]

/-- The body of a block begins at the beginning of a line. -/
theorem column_block (h : s.Stands p text before front after) (hkind : s.kind = .block) :
    (p.across (before ++ front)).column = 0 := by
  have hopening := h.opening
  rw [Opening, hkind] at hopening
  obtain ⟨gap, header, rfl⟩ := hopening
  have hfront : before ++ 'w' :: 'i' :: 't' :: 'h' ::
      (gap ++ '$' :: (s.quoter.toList ++ (header ++ ['\n']))) =
        (before ++ 'w' :: 'i' :: 't' :: 'h' :: (gap ++ '$' :: (s.quoter.toList ++ header))) ++
          ['\n'] := by simp
  rw [hfront]
  exact Position.across_feed p _

/-- **The body of a block begins on the line below its site** where the header stands on one line. -/
theorem plain_iff_block (h : s.Stands p text before front after) (hkind : s.kind = .block) :
    s.Plain front ↔ (p.across (before ++ front)).line = s.line + 1 := by
  rw [h.bodyLine_eq, Plain, hkind]
  exact (Nat.add_left_cancel_iff).symm

/-- If an expression opens on one line, what stands between bracket and marker moves its body. -/
theorem column_expression (h : s.Stands p text before front after) (hkind : s.kind = .expression) :
    ∃ gap, front = '[' :: (gap ++ '$' :: (s.quoter.toList ++ ['|'])) ∧
      ((p.across (before ++ front)).line = s.line → (p.across (before ++ front)).column =
        s.column + 3 + s.quoter.length + gap.length) := by
  have hopening := h.opening
  rw [Opening, hkind] at hopening
  obtain ⟨gap, hfront⟩ := hopening
  refine ⟨gap, hfront, ?_⟩
  intro hline
  rw [h.bodyLine_eq] at hline
  have hnone : '\n' ∉ front := List.count_eq_zero.1 (by omega)
  rw [Position.across_append, Position.across_oneLine _ hnone, ← h.column, hfront]
  simp only [List.length_cons, List.length_append, String.length_toList, List.length_nil]
  omega

/-- **The body of an expression begins three characters and a name behind its site** where nothing stands
between bracket and marker. -/
theorem plain_iff_expression (h : s.Stands p text before front after) (hkind : s.kind = .expression) :
    s.Plain front ↔ (p.across (before ++ front)).line = s.line ∧
      (p.across (before ++ front)).column = s.column + 3 + s.quoter.length := by
  obtain ⟨gap, hfront, hcolumn⟩ := h.column_expression hkind
  have hname : '\n' ∉ s.quoter.toList := Scan.feed_notMem_of_isIdentifier h.identifier
  have hplain : s.Plain front ↔ gap = [] := by
    rw [Plain, hkind, hfront]
    constructor
    · intro heq
      have hlength := congrArg List.length heq
      simp only [List.length_cons, List.length_append] at hlength
      exact List.length_eq_zero_iff.1 (by omega)
    · rintro rfl
      rfl
  rw [hplain]
  constructor
  · rintro rfl
    have hnone : '\n' ∉ front := by simp [hfront, hname]
    have hline : (p.across (before ++ front)).line = s.line := by
      rw [h.bodyLine_eq, List.count_eq_zero_of_not_mem hnone, Nat.add_zero]
    exact ⟨hline, hcolumn hline⟩
  · rintro ⟨hline, hat⟩
    have hmoved := hcolumn hline
    exact List.length_eq_zero_iff.1 (by omega)

end Stands

end Site

end Quasiquote
