import Quasiquote.Source.Lexer
import Quasiquote.Site.Basic

/-!
# Finding quote sites

A source is read as a sequence of pieces: host tokens and quote sites. A site begins where a marker
follows the word `with` or an opening bracket; from there on its parts are required.

## Main Definitions

* `SiteFault`, `RewriteError` — what makes a source impossible to rewrite
* `Piece` — a host token or a quote site
* `pieces` — the pieces of a source in order
* `findSites` — its sites

## Design Notes

Whether a token opens a site is known only when the next one is read, so the reader of pieces holds
one token back. Recognition does not ask whether the source opts in.
-/

namespace Quasiquote

/-- The parts of a site that can be missing. -/
inductive SiteFault where
  /-- The marker is not followed directly by a name. -/
  | missingName
  /-- A block header has no colon. -/
  | missingColon
  /-- A block header goes on behind its colon. -/
  | trailingText
  /-- A block header has no block. -/
  | missingBlock
  /-- The name of an expression site is not followed directly by a bar. -/
  | missingBar
  /-- An expression site does not end. -/
  | missingClose
deriving DecidableEq, Repr

namespace SiteFault

/-- The fault in words. -/
def reason : SiteFault → String
  | missingName => "expected a quoter name directly after `$`"
  | missingColon => "expected `:` after the quoter name"
  | trailingText => "expected the end of the line after `:`"
  | missingBlock => "expected an indented block"
  | missingBar => "expected `|` directly after the quoter name"
  | missingClose => "unterminated quote expression, missing `|]`"

end SiteFault

/-- What makes a source impossible to rewrite. -/
inductive RewriteError where
  /-- A marker that begins no well-formed site. The position and the line are those of the token
  before the marker. -/
  | malformedSite (pos : Position) (fault : SiteFault) (line : String)
  | lexical (cause : LexError)
deriving DecidableEq, Repr

namespace RewriteError

/-- The text of the error. -/
def message : RewriteError → String
  | malformedSite pos fault _ => pos.render ++ ": invalid quote site: " ++ fault.reason
  | lexical cause => cause.message

/-- Where the error is, if it is at one place of the source. -/
def position? : RewriteError → Option Position
  | malformedSite pos _ _ => some pos
  | lexical cause => cause.position?

end RewriteError

/-- A piece of a host source. -/
inductive Piece where
  | token (t : Token)
  | site (s : Site)
deriving DecidableEq, Repr

namespace Token

/-- The physical line of a token without its line break. -/
def lineText (t : Token) : String := String.ofList (Text.trimLineEnds t.line.toList)

/-- Whether a marker behind this token begins a site. -/
def opensSite (t : Token) : Bool := t.isName "with" || t.isOperator "["

/-- The error of a site that begins at this token. -/
def fault (opener : Token) (cause : SiteFault) : RewriteError :=
  .malformedSite opener.start cause opener.lineText

end Token

namespace Lexer

/-- The next token, or the error of a source that cannot be rewritten. -/
def read (lx : Lexer) : Except RewriteError (Token × Lexer) :=
  match lx.next with
  | (.ok t, rest) => .ok (t, rest)
  | (.error e, _) => .error (.lexical e)

/-- The quoter's name, which has to stand directly behind the marker. -/
def quoterName (lx : Lexer) (opener marker : Token) : Except RewriteError (Token × Lexer) := do
  let (name, rest) ← lx.read
  if name.kind = .name ∧ name.start.offset = marker.stop.offset then return (name, rest)
  else throw (opener.fault .missingName)

/-- The next token, or the one after it if it is a comment. -/
def readPastComment (lx : Lexer) : Except RewriteError (Token × Lexer) := do
  let (first, rest) ← lx.read
  if first.kind = .comment then rest.read else return (first, rest)

/-- The end of a block header: a line end, with or without a comment before it. -/
def headerEnd (lx : Lexer) (opener : Token) : Except RewriteError (Token × Lexer) := do
  let (last, rest) ← lx.readPastComment
  if last.kind = .newline then return (last, rest) else throw (opener.fault .trailingText)

/-- The site `with $q:` behind its marker. -/
def blockSite (lx : Lexer) (opener marker : Token) : Except RewriteError (Site × Lexer) := do
  let (name, rest) ← lx.quoterName opener marker
  let (colon, rest) ← rest.read
  if colon.isOperator ":" then
    let (_, rest) ← rest.headerEnd opener
    match rest.takeIndentedBlock with
    | none => throw (opener.fault .missingBlock)
    | some (block, rest) =>
      return ({
        kind := .block
        quoter := name.text
        body := block.text
        column := opener.start.column
        line := opener.start.line
        bodyLine := block.start.line
        sourceLine := opener.lineText
        start := opener.start.offset
        stop := block.stop.offset
        newlines := block.stop.line - opener.start.line }, rest)
  else throw (opener.fault .missingColon)

/-- The site `[$q|…|]` behind its marker. The bar is looked for in the raw text, so that a body
that begins with `|` or `=` does not become one operator with it. -/
def expressionSite (lx : Lexer) (opener marker : Token) : Except RewriteError (Site × Lexer) := do
  let (name, rest) ← lx.quoterName opener marker
  match rest.takeUntil "|" with
  | none => throw (opener.fault .missingBar)
  | some (gap, rest) =>
    if gap.text = "" then
      match rest.takeUntil Site.expressionClose with
      | none => throw (opener.fault .missingClose)
      | some (body, rest) =>
        return ({
          kind := .expression
          quoter := name.text
          body := body.text
          column := opener.start.column
          line := opener.start.line
          bodyLine := body.start.line
          sourceLine := opener.lineText
          start := opener.start.offset
          stop := rest.here.offset
          newlines := rest.here.line - opener.start.line }, rest)
    else throw (opener.fault .missingBar)

/-- The site behind a marker. The token before the marker decides on its form. -/
def site (lx : Lexer) (opener marker : Token) : Except RewriteError (Site × Lexer) :=
  if opener.kind = .name then lx.blockSite opener marker else lx.expressionSite opener marker

/-! ### Progress -/

theorem read_weight_le {lx rest : Lexer} {t : Token} (h : lx.read = .ok (t, rest)) :
    rest.weight ≤ lx.weight := by
  unfold read at h
  split at h
  · next hn => cases h; exact next_weight_le hn
  · simp at h

theorem quoterName_weight_le {lx rest : Lexer} {opener marker t : Token}
    (h : lx.quoterName opener marker = .ok (t, rest)) : rest.weight ≤ lx.weight := by
  simp only [quoterName, bind, Except.bind] at h
  split at h
  · simp at h
  · next hr =>
    split at h
    · cases h; exact read_weight_le hr
    · simp [throw, throwThe, MonadExceptOf.throw] at h

theorem readPastComment_weight_le {lx rest : Lexer} {t : Token}
    (h : lx.readPastComment = .ok (t, rest)) : rest.weight ≤ lx.weight := by
  simp only [readPastComment, bind, Except.bind] at h
  split at h
  · simp at h
  · next hfirst =>
    have hfirst := read_weight_le hfirst
    split at h
    · exact Nat.le_trans (read_weight_le h) hfirst
    · cases h; exact hfirst

theorem headerEnd_weight_le {lx rest : Lexer} {opener t : Token}
    (h : lx.headerEnd opener = .ok (t, rest)) : rest.weight ≤ lx.weight := by
  simp only [headerEnd, bind, Except.bind] at h
  split at h
  · simp at h
  · next hlast =>
    split at h
    · cases h; exact readPastComment_weight_le hlast
    · simp [throw, throwThe, MonadExceptOf.throw] at h

theorem blockSite_weight_le {lx rest : Lexer} {opener marker : Token} {s : Site}
    (h : lx.blockSite opener marker = .ok (s, rest)) : rest.weight ≤ lx.weight := by
  simp only [blockSite, bind, Except.bind] at h
  split at h
  · simp at h
  · next hname =>
    have hname := quoterName_weight_le hname
    split at h
    · simp at h
    · next hcolon =>
      have hcolon := read_weight_le hcolon
      split at h
      · split at h
        · simp at h
        · next hend =>
          have hend := headerEnd_weight_le hend
          split at h
          · simp [throw, throwThe, MonadExceptOf.throw] at h
          · next hblock =>
            have hblock := takeIndentedBlock_weight_le hblock
            cases h
            omega
      · simp [throw, throwThe, MonadExceptOf.throw] at h

theorem expressionSite_weight_le {lx rest : Lexer} {opener marker : Token} {s : Site}
    (h : lx.expressionSite opener marker = .ok (s, rest)) : rest.weight ≤ lx.weight := by
  simp only [expressionSite, bind, Except.bind] at h
  split at h
  · simp at h
  · next hname =>
    have hname := quoterName_weight_le hname
    split at h
    · simp [throw, throwThe, MonadExceptOf.throw] at h
    · next hbar =>
      have hbar := takeUntil_weight_le hbar (by decide)
      split at h
      · split at h
        · simp [throw, throwThe, MonadExceptOf.throw] at h
        · next hbody =>
          have hbody := takeUntil_weight_le hbody (by decide)
          cases h
          omega
      · simp [throw, throwThe, MonadExceptOf.throw] at h

/-- Recognizing a site adds nothing to the reader's weight. -/
theorem site_weight_le {lx rest : Lexer} {opener marker : Token} {s : Site}
    (h : lx.site opener marker = .ok (s, rest)) : rest.weight ≤ lx.weight := by
  unfold site at h
  split at h
  · exact blockSite_weight_le h
  · exact expressionSite_weight_le h

/-! ### Pieces -/

/-- The pieces ahead of a reader that holds one token back. -/
def pieces (lx : Lexer) (held : Option Token) : Except RewriteError (List Piece) :=
  match _h : lx.next with
  | (.error e, _) => .error (.lexical e)
  | (.ok t, rest) =>
    let before := held.toList.map Piece.token
    if _hk : t.kind = .endMarker then .ok (before ++ [.token t])
    else
      match held.filter fun opener => t.kind == .marker && opener.opensSite with
      | none => (rest.pieces (some t)).map (before ++ ·)
      | some opener =>
        match _hs : rest.site opener t with
        | .error e => .error e
        | .ok (s, rest) => (rest.pieces none).map (.site s :: ·)
termination_by lx.weight
decreasing_by
  · exact next_weight _h _hk
  · exact Nat.lt_of_le_of_lt (site_weight_le _hs) (next_weight _h _hk)

end Lexer

namespace Piece

/-- The site, if the piece is one. -/
def site? : Piece → Option Site
  | token _ => none
  | site s => some s

/-- The token, if the piece is one. -/
def token? : Piece → Option Token
  | token t => some t
  | site _ => none

end Piece

/-- The host tokens and quote sites of a source, in order. Offsets count from behind the byte order
mark. -/
def pieces (source : String) : Except RewriteError (List Piece) :=
  (Lexer.ofSource source).pieces none

namespace Site

/-- The same site in a source with `bytes` more bytes before it. -/
def shift (s : Site) (bytes : Nat) : Site :=
  { s with start := s.start + bytes, stop := s.stop + bytes }

end Site

/-- The quote sites of a source, in order. -/
def findSites (source : String) : Except RewriteError (List Site) :=
  (pieces source).map fun found =>
    (found.filterMap Piece.site?).map (Site.shift · (markLength source.toList))

end Quasiquote
