import Quasiquote.Proofs.Source.Words
import Quasiquote.Proofs.Source.Quoted
import Quasiquote.Site.Basic

/-!
# The tokens of a call

What a reader makes of the call that replaces a site.

## Main Definitions

* `Site.callWords` — the words of a call
* `Site.leaves` — what a reader knows behind a call

## Main Statements

* `Site.spells_call` — a reader reads a call as its words
* `Site.call_reads_back` — a call by itself carries the body and the column of its site

## Design Notes

The words behind the quoter's name are treated by themselves: whatever a source makes of the name,
the rest of the call is read in the same way.
-/

namespace Quasiquote

namespace Site

open Scan Lexer

/-! ### Words -/

/-- The call from the parenthesis that opens its arguments up to the column. -/
def argumentChars (s : Site) : List Char :=
  '(' :: Literal.quoteChars s.body.toList ++ ", ".toList ++ contextCall.toList ++ ", ".toList ++
    (toString s.column).toList

/-- The end of the call, with the site's line breaks. -/
def closingChars (s : Site) : List Char :=
  match s.kind with
  | .block => ')' :: List.replicate s.newlines '\n'
  | .expression => List.replicate s.newlines '\n' ++ [')']

theorem callChars_eq (s : Site) :
    s.callChars =
      s.quoter.toList ++ ('.' :: (s.kind.method.toList ++ (s.argumentChars ++ s.closingChars))) := by
  unfold callChars closingChars openCall argumentChars
  cases s.kind <;> simp

/-- A call begins like the quoter's name. -/
theorem callChars_eq_cons {s : Site} (hquoter : isIdentifier s.quoter.toList = true) :
    ∃ d more, s.callChars = d :: more ∧ isIdentStart d = true ∧ s.quoter.toList.head? = some d := by
  rw [callChars_eq]
  obtain ⟨d, name, hname⟩ := List.exists_cons_of_ne_nil (ne_nil_of_isIdentifier hquoter)
  have hfirst : s.quoter.toList.head? = some d := by rw [hname]; rfl
  refine ⟨d, _, by rw [hname]; rfl, isIdentStart_of_isIdentifier hquoter hfirst, hfirst⟩

/-- The words that select the quoter's method. -/
def methodWords (s : Site) : List Spelling := [(.operator, "."), (.name, s.kind.method)]

/-- The words from the parenthesis that opens the arguments up to the column. -/
def argumentWords (s : Site) : List Spelling :=
  [(.operator, "("), (.string, Literal.quote s.body), (.operator, ","),
    (.name, "current_execution_context"), (.operator, "("), (.operator, ")"), (.operator, ","),
    (.number, toString s.column)]

/-- The tokens that `n` line feeds amount to behind a logical line: the first ends it. -/
def breakWords : Nat → List Spelling
  | 0 => []
  | n + 1 => (.newline, "\n") :: List.replicate n (.lineBreak, "\n")

/-- The words at the end of the call. -/
def closingWords (s : Site) : List Spelling :=
  match s.kind with
  | .block => (.operator, ")") :: breakWords s.newlines
  | .expression => List.replicate s.newlines (.lineBreak, "\n") ++ [(.operator, ")")]

/-- The words from the quoter's name to the method's. -/
def frontWords (s : Site) : List Spelling := (.name, s.quoter) :: s.methodWords

/-- The words behind the method's name. -/
def tailWords (s : Site) : List Spelling := s.argumentWords ++ s.closingWords

/-- **The words of a call.** -/
def callWords (s : Site) : List Spelling := s.frontWords ++ s.tailWords

theorem isIdentifier_method (k : Site.Kind) : isIdentifier k.method.toList = true := by
  cases k <;> decide

theorem words_method (s : Site) (text : List Char) :
    Words ('.' :: (s.kind.method.toList ++ '(' :: text)) s.methodWords ('(' :: text) := by
  have hpoint : Words ('.' :: (s.kind.method.toList ++ '(' :: text)) [(.operator, ".")]
      (s.kind.method.toList ++ '(' :: text) := by
    have hlexeme : lexeme ('.' :: (s.kind.method.toList ++ '(' :: text)) = some (.operator, 1) := by
      cases s.kind <;> exact lexeme_before_name (by decide) (by decide) _
    exact words_one (x := ['.']) (by simp) hlexeme
  have hname := words_name (isIdentifier_method s.kind)
    (show ∀ d ∈ ('(' :: text).head?, _ by simp; decide)
  rw [String.ofList_toList] at hname
  exact hpoint.trans hname

/-- An identifier in front of the method is a name. -/
theorem words_front (s : Site) {x : List Char} (hx : isIdentifier x = true) (text : List Char) :
    Words (x ++ '.' :: (s.kind.method.toList ++ '(' :: text))
      ((.name, String.ofList x) :: s.methodWords) ('(' :: text) :=
  (words_name hx (by simp; decide)).trans (words_method s text)

theorem words_call (s : Site) (hquoter : isIdentifier s.quoter.toList = true) (text : List Char) :
    Words (s.callChars ++ text) s.frontWords (s.argumentChars ++ (s.closingChars ++ text)) := by
  have hopen : s.argumentChars ++ (s.closingChars ++ text) =
      '(' :: (s.argumentChars.tail ++ (s.closingChars ++ text)) := rfl
  have hwords := s.words_front hquoter (s.argumentChars.tail ++ (s.closingChars ++ text))
  rw [← hopen, String.ofList_toList] at hwords
  have hchars : s.callChars ++ text = s.quoter.toList ++
      '.' :: (s.kind.method.toList ++ (s.argumentChars ++ (s.closingChars ++ text))) := by
    rw [callChars_eq]
    simp
  rw [hchars]
  exact hwords

theorem isDigit_of_mem_toString {n : Nat} : ∀ c ∈ (toString n).toList, c.isDigit = true := by
  intro c hc
  rw [Nat.toString_eq_repr, Nat.toList_repr] at hc
  exact Nat.isDigit_of_mem_toDigits (by decide) (by decide) hc

theorem words_arguments (s : Site) {text : List Char}
    (htext : ∀ d ∈ text.head?, isNumberPart d = false ∧ isSign d = false) :
    Words (s.argumentChars ++ text) s.argumentWords text := by
  have hcontext : contextCall.toList = "current_execution_context".toList ++ ['(', ')'] := by decide
  have hcomma : ", ".toList = [',', ' '] := by decide
  have hne : (toString s.column).toList ≠ [] := by
    rw [Nat.toString_eq_repr, Nat.toList_repr]
    exact Nat.toDigits_ne_nil
  have hcolumn : Words (' ' :: ((toString s.column).toList ++ text))
      [(.number, toString s.column)] text := by
    have hword := Words.cons 1 hne (lexeme_digits hne isDigit_of_mem_toString htext) (.nil text)
    rwa [String.ofList_toList] at hword
  have hname (more : List Char) : Words (' ' :: ("current_execution_context".toList ++ '(' :: more))
      [(.name, "current_execution_context")] ('(' :: more) := by
    have hident : isIdentifier "current_execution_context".toList = true := by decide
    have hlexeme := @lexeme_name _ hident ('(' :: more) (by simp; decide)
    exact .cons 1 (by decide) hlexeme (.nil _)
  have hbody (more : List Char) : Words (Literal.quoteChars s.body.toList ++ ',' :: more)
      [(.string, Literal.quote s.body)] (',' :: more) :=
    words_one (by simp [Literal.quoteChars]) (Literal.lexeme_quoteChars _ (by simp))
  -- word by word, each in front of all the others
  have hall := (words_mark (c := '(') (by decide) _).trans ((hbody _).trans
    ((words_mark (c := ',') (by decide) _).trans ((hname _).trans
    ((words_mark (c := '(') (by decide) _).trans ((words_mark (c := ')') (by decide) _).trans
    ((words_mark (c := ',') (by decide) _).trans hcolumn))))))
  have hchars : s.argumentChars ++ text = '(' :: (Literal.quoteChars s.body.toList ++ ',' ::
      ' ' :: ("current_execution_context".toList ++ '(' :: ')' :: ',' ::
      ' ' :: ((toString s.column).toList ++ text))) := by
    simp [argumentChars, hcontext, hcomma]
  rw [hchars]
  exact hall

/-! ### Reading a call -/

/-- What a reader knows behind a call: the line breaks of a block end its line, all else is a part
of it. -/
def leaves (s : Site) (lx : Lexer) : Lexer :=
  if s.kind = .block ∧ 0 < s.newlines then
    { lx with depth := 0, atLineStart := true, lineHasContent := false }
  else lx.within lx.depth

theorem leaves_elsewhere (s : Site) (lx : Lexer) (b A : List Char) (p : Position) :
    s.leaves (lx.elsewhere b A p) = (s.leaves lx).elsewhere b A p := by
  unfold leaves
  split <;> rfl

/-- What has been read of the line before does not matter behind a call. -/
theorem leaves_within (s : Site) (lx : Lexer) : s.leaves (lx.within lx.depth) = s.leaves lx := by
  unfold leaves
  split <;> rfl

section

variable {s : Site} {lx : Lexer} {T : List Char}

/-- The line breaks of a block end the logical line, and its other lines are blank. -/
theorem spells_closing_block (hkind : s.kind = .block) (hpending : lx.pendingDedents = 0)
    (hdepth : lx.depth = 0) (b : List Char) (p : Position) :
    ∃ b' p', ((lx.within (lx.depth + 1)).elsewhere b (s.closingChars ++ T) p).Spells s.closingWords
      ((s.leaves lx).elsewhere b' T p') := by
  have hchars : s.closingChars = [')'] ++ List.replicate s.newlines '\n' := by
    rw [closingChars, hkind]
    rfl
  have hwords : s.closingWords = [(.operator, ")")] ++ breakWords s.newlines := by
    rw [closingWords, hkind]
    rfl
  rw [hchars, hwords, List.append_assoc, hdepth]
  obtain ⟨b₁, p₁, hclose⟩ := @spells_lexeme
    ((lx.within (0 + 1)).elsewhere b ([')'] ++ (List.replicate s.newlines '\n' ++ T)) p)
    .operator [')'] (List.replicate s.newlines '\n' ++ T) (atToken_within hpending _ _ _ _) (by simp)
    (lexeme_mark (by decide) _) rfl
  cases hbreaks : s.newlines with
  | zero =>
    rw [hbreaks] at hclose
    have hleaves : s.leaves lx = lx.within 0 := by rw [leaves, if_neg (by omega), hdepth]
    rw [hleaves, breakWords]
    exact ⟨b₁, p₁, hclose⟩
  | succ n =>
    -- the first line feed ends the line of the call, the others end blank lines
    rw [hbreaks] at hclose
    have hleaves : s.leaves lx =
        { lx with depth := 0, atLineStart := true, lineHasContent := false } := by
      rw [leaves, if_pos ⟨hkind, by omega⟩]
    obtain ⟨b₂, p₂, hline⟩ := @spells_break
      ((lx.within 0).elsewhere b₁ (List.replicate (n + 1) '\n' ++ T) p₁) [] _ (List.forall_mem_nil _)
      hpending rfl
    obtain ⟨b₃, p₃, hblank⟩ := @spells_breaks_blank n
      ({ lx with depth := 0, atLineStart := true, lineHasContent := false }.elsewhere b₂
        (List.replicate n '\n' ++ T) p₂) T hpending rfl rfl rfl
    rw [hleaves, breakWords]
    exact ⟨b₃, p₃, hclose.trans (hline.trans hblank)⟩

/-- The line breaks of an expression stand inside the call's parentheses. -/
theorem spells_closing_expression (hkind : s.kind = .expression) (hpending : lx.pendingDedents = 0)
    (b : List Char) (p : Position) :
    ∃ b' p', ((lx.within (lx.depth + 1)).elsewhere b (s.closingChars ++ T) p).Spells s.closingWords
      ((s.leaves lx).elsewhere b' T p') := by
  have hchars : s.closingChars = List.replicate s.newlines '\n' ++ [')'] := by
    rw [closingChars, hkind]
  have hwords : s.closingWords =
      List.replicate s.newlines (.lineBreak, "\n") ++ [(.operator, ")")] := by
    rw [closingWords, hkind]
  have hleaves : s.leaves lx = lx.within lx.depth := by rw [leaves, hkind, if_neg (by simp)]
  rw [hchars, hwords, hleaves, List.append_assoc]
  obtain ⟨start, b₁, p₁, hbreaks⟩ := @spells_breaks_nested s.newlines
    ((lx.within (lx.depth + 1)).elsewhere b (List.replicate s.newlines '\n' ++ ([')'] ++ T)) p)
    ([')'] ++ T) hpending (Nat.succ_pos _) rfl
  obtain ⟨b₂, p₂, hclose⟩ := @spells_lexeme
    ({ lx.within (lx.depth + 1) with atLineStart := start }.elsewhere b₁ ([')'] ++ T) p₁)
    .operator [')'] T ⟨hpending, fun _ hdepth => absurd hdepth (Nat.succ_ne_zero _)⟩ (by simp)
    (lexeme_mark (by decide) T) rfl
  exact ⟨b₂, p₂, hbreaks.trans hclose⟩

/-- Behind the method, a call is read as its arguments and its end. -/
theorem spells_tail (hpending : lx.pendingDedents = 0)
    (hblock : s.kind = .block → lx.depth = 0) (b : List Char) (p : Position) :
    ∃ b' p', ((lx.within lx.depth).elsewhere b (s.argumentChars ++ (s.closingChars ++ T)) p).Spells
      s.tailWords ((s.leaves lx).elsewhere b' T p') := by
  -- the column ends where the call does
  have hhead : ∀ d ∈ (s.closingChars ++ T).head?, isNumberPart d = false ∧ isSign d = false := by
    have hstop : ∀ c ∈ ['\n', ')'], isNumberPart c = false ∧ isSign c = false := by decide
    unfold closingChars
    cases s.kind with
    | block => simpa using hstop ')' (by simp)
    | expression =>
      cases s.newlines with
      | zero => simpa using hstop ')' (by simp)
      | succ n => simpa [List.replicate_succ] using hstop '\n' (by simp)
  obtain ⟨b₁, p₁, hwords⟩ := spells_words (words_arguments s hhead) (by simp [argumentWords])
    (atToken_within hpending lx.depth b (s.argumentChars ++ (s.closingChars ++ T)) p) rfl
  obtain ⟨b₂, p₂, hclose⟩ : ∃ b' p',
      ((lx.within (lx.depth + 1)).elsewhere b₁ (s.closingChars ++ T) p₁).Spells s.closingWords
        ((s.leaves lx).elsewhere b' T p') := by
    cases hkind : s.kind with
    | block => exact spells_closing_block hkind hpending (hblock hkind) _ _
    | expression => exact spells_closing_expression hkind hpending _ _
  exact ⟨b₂, p₂, hwords.trans hclose⟩

/-- **A call is read as its words,** whatever words its front comes to. The reader is at a token, and
the call stands behind its blanks. -/
theorem spells_call {text : List Char} {front : List Spelling}
    (hfront : Words text front (s.argumentChars ++ (s.closingChars ++ T))) (hne : front ≠ [])
    (hdepth : front.foldl nestWord lx.depth = lx.depth) (hat : lx.AtToken)
    (hblock : s.kind = .block → lx.depth = 0)
    (hpast : lx.pastBlanks.ahead = text.drop (Scan.blankLength text)) :
    ∃ b p, lx.Spells (front ++ s.tailWords) ((s.leaves lx).elsewhere b T p) := by
  obtain ⟨b₁, p₁, hwords⟩ := spells_words hfront hne hat hpast
  rw [hdepth] at hwords
  obtain ⟨b₂, p₂, htail⟩ := spells_tail hat.1 hblock b₁ p₁
  exact ⟨b₂, p₂, hwords.trans htail⟩

end

/-! ### A call by itself -/

/-- Whether a token is a line end, logical or not. -/
def isBreak (word : Spelling) : Bool := word.1 == .newline || word.1 == .lineBreak

theorem filter_callWords (s : Site) :
    s.callWords.filter (fun word => !isBreak word) =
      s.frontWords ++ (s.argumentWords ++ [(.operator, ")")]) := by
  have hbreaks (n : Nat) : (List.replicate n ((.lineBreak, "\n") : Spelling)).filter
      (fun word => !isBreak word) = [] := by
    simp [isBreak]
  have hclosing : s.closingWords.filter (fun word => !isBreak word) = [(.operator, ")")] := by
    unfold closingWords
    cases s.kind with
    | block =>
      cases s.newlines with
      | zero => rfl
      | succ n => simp [breakWords, isBreak]
    | expression => simp [isBreak]
  rw [callWords, tailWords, List.filter_append, List.filter_append, hclosing]
  rfl

theorem tokenizes_call {s : Site} (hquoter : isIdentifier s.quoter.toList = true) :
    ∃ tail, (ofChars s.callChars).Tokenizes (s.callWords ++ tail) ∧
      tail.filter (fun word => !isBreak word) = [(.endMarker, "")] := by
  obtain ⟨c, rest, hcall, hc, -⟩ := callChars_eq_cons hquoter
  have hat : (ofChars s.callChars).AtToken := hcall ▸ atToken_ofChars (not_gap_of_identStart c hc) rest
  have hfront := s.words_call hquoter []
  rw [List.append_nil] at hfront
  obtain ⟨b, p, hspells⟩ := spells_call hfront (by simp [frontWords]) rfl hat (fun _ => rfl) rfl
  refine ⟨_, hspells.tokenizes (tokenizes_end ?_ (List.forall_mem_nil _)), ?_⟩
  · unfold leaves
    split <;> rfl
  · have hindents : ((s.leaves (ofChars s.callChars)).elsewhere b [] p).indents.length - 1 = 0 := by
      unfold leaves
      split <;> rfl
    rw [hindents]
    split <;> rfl

/-- **What a call says by itself:** the quoter's name, the method and the arguments, with line ends
and nothing else. The literal among the arguments lies on one line and denotes the body. -/
structure ReadsBack (s : Site) (tokens : List Token) (literal : Token) : Prop where
  reads : tokenize s.call = .ok tokens
  words :
    (tokens.filter fun t => !(t.kind == .newline || t.kind == .lineBreak)).map Token.spelling =
      [(.name, s.quoter), (.operator, "."), (.name, s.kind.method), (.operator, "("),
        (.string, literal.text), (.operator, ","), (.name, "current_execution_context"),
        (.operator, "("), (.operator, ")"), (.operator, ","), (.number, toString s.column),
        (.operator, ")"), (.endMarker, "")]
  mem : literal ∈ tokens
  denotes : Literal.unquote literal.text = .ok s.body
  oneLine : literal.stop.line = literal.start.line
  noBreak : ∀ c ∈ literal.text.toList, endsLine c = false

/-- **A call carries the body and the column of its site,** whatever they are. -/
theorem call_reads_back (s : Site) (hquoter : isIdentifier s.quoter.toList = true)
    (hmark : s.quoter.toList.head? ≠ some byteOrderMark) :
    ∃ tokens literal, s.ReadsBack tokens literal := by
  have hsource : ofSource s.call = ofChars s.callChars := by
    have hstrip : stripMark s.callChars = s.callChars := by
      rw [callChars_eq]
      cases hname : s.quoter.toList with
      | nil => rfl
      | cons c rest =>
        have hc : c ≠ byteOrderMark := by simpa [hname] using hmark
        rw [List.cons_append, stripMark, if_neg hc]
    rw [ofSource, call, String.toList_ofList, hstrip]
  obtain ⟨tail, ⟨tokens, hrun, hwords⟩, htail⟩ := tokenizes_call hquoter
  obtain ⟨literal, hmem, hliteral⟩ : ∃ t ∈ tokens, t.spelling = (.string, Literal.quote s.body) := by
    apply List.mem_map.1
    rw [hwords]
    simp [callWords, tailWords, argumentWords]
  have htext : literal.text = Literal.quote s.body := congrArg Prod.snd hliteral
  have hline : ∀ c ∈ literal.text.toList, endsLine c = false := by
    rw [htext, Literal.quote, String.toList_ofList]
    exact Literal.oneLine_quoteChars _
  refine ⟨tokens, literal, ⟨?_, ?_, hmem, ?_, ?_, hline⟩⟩
  · rw [tokenize, hsource, hrun]
  · have hfilter : (tokens.map Token.spelling).filter (fun word => !isBreak word) =
        (tokens.filter fun t => !(t.kind == .newline || t.kind == .lineBreak)).map Token.spelling :=
      List.filter_map
    rw [← hfilter, hwords, List.filter_append, htail, filter_callWords, htext]
    rfl
  · rw [htext, Literal.unquote_quote]
  · refine oneLine_of_mem_run (by rw [hrun]; exact hmem) fun hfeed => ?_
    simpa [endsLine] using hline _ hfeed

/-- A block whose body holds quotes, a backslash, control characters and line breaks. -/
def hardBlock : Site :=
  { kind := .block, quoter := "écho", body := "\"\\\x00\x7f\r\n\x27\n", column := 12, line := 1,
    bodyLine := 2, sourceLine := "", start := 0, stop := 0, newlines := 3 }

theorem hardBlock_reads_back :
    isIdentifier hardBlock.quoter.toList = true ∧
      hardBlock.quoter.toList.head? ≠ some byteOrderMark ∧
      ∃ tokens literal, hardBlock.ReadsBack tokens literal :=
  ⟨by decide, by decide, call_reads_back hardBlock (by decide) (by decide)⟩

end Site

end Quasiquote
