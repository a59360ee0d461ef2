import Quasiquote.Proofs.Host.Layout

/-!
# What is written is read back

Host code that is written with parentheses only where precedence and associativity call for them is read
back as the expressions and statements that it was written for.

## Main Statements

* `Host.parseExpression_of_forms` — a phrase that is written is read as its tree
* `Host.parseExpression_of_spaced` — an expression that is written is read back
* `Host.parseStatements_of_layout` — a block that is written is read back
* `Host.written_code_reads_back` — both
-/

namespace Quasiquote.Host

namespace Parser

/-- The tokens that matter are those of the words that matter. -/
theorem spelling_significant (tokens : List Token) :
    (significant tokens).map Token.spelling = (tokens.map Token.spelling).filter isSignificant := by
  rw [List.filter_map]
  rfl

/-- A source whose words are known is read by a rule that reads the words that matter. -/
theorem parse_of_tokenizes {α : Type} {source : String} {added : Nat} {rule : Nat → Rule α} {found : α}
    {words : List Spelling} (h : (Lexer.ofSource source).Tokenizes words)
    (hrun : ∀ ts : List Token, ts.map Token.spelling = words.filter isSignificant →
      ∃ rest, (rule (depthFor ts)).run ts = .ok (found, rest)) :
    parse source added rule = .ok found := by
  obtain ⟨tokens, hall, rfl⟩ := h
  obtain ⟨rest, hrest⟩ := hrun (significant tokens) (spelling_significant tokens)
  have htokens : tokenize source = .ok tokens := by
    unfold tokenize
    rw [hall]
  unfold parse
  rw [htokens]
  dsimp only
  rw [hrest]

/-- An expression is the whole source if only the end of its line and the end marker are behind it. -/
theorem wholeExpression_of_expr {n : Nat} {ts : List Token} {e : Expr} {newline marker : Token}
    (hn : 2 ≤ n) (h : (expr n).run ts = .ok (e, [newline, marker])) (hnewline : newline.kind = .newline)
    (hmarker : marker.kind = .endMarker) : (wholeExpression n).run ts = .ok (e, []) := by
  obtain ⟨n, rfl⟩ : ∃ k, n = k + 2 := ⟨n - 2, by omega⟩
  have hskip : (skipNewlines (n + 2)).run [newline, marker] = .ok ((), [marker]) := by
    rw [skipNewlines, StateT.run_bind, run_accept]
    simp only [List.headD_cons, hnewline, beq_self_eq_true, if_true, List.tail_cons]
    show (skipNewlines (n + 1)).run [marker] = _
    rw [skipNewlines, StateT.run_bind, run_accept]
    simp only [List.headD_cons, hmarker]
    rfl
  rw [wholeExpression, run_bind_of_ok h, run_bind_of_ok hskip, StateT.run_bind, run_accept]
  simp only [List.headD_cons, hmarker, beq_self_eq_true, if_true, List.tail_cons]
  rfl

end Parser

open Lexer

/-! ### Expressions -/

/-- A reader between the parentheses around an expression. -/
def wrapped (start : Bool) (behind ahead : List Char) (p : Position) : Lexer :=
  { ofChars ahead with behind, here := p, depth := 1, atLineStart := start, lineHasContent := true }

/-- Words between parentheses on lines of their own. -/
theorem tokenizes_wrapped {words : List Spelling} (hlegible : ∀ w ∈ words, Scan.Legible w)
    (hsigns : ∀ w ∈ words, w.1 = .operator → w.2 ∈ expressionSigns) (hbalanced : Balanced words)
    (hne : words ≠ []) {body : String}
    (hbody : Scan.Spaced words body.toList) :
    (ofSource ("(\n" ++ body ++ "\n)")).Tokenizes
      (sign "(" :: (.lineBreak, "\n") :: (words ++
        [(.lineBreak, "\n"), sign ")", (.newline, ""), (.endMarker, "")])) := by
  have hsource : ofSource ("(\n" ++ body ++ "\n)") =
      ofChars ('(' :: '\n' :: (body.toList ++ ['\n', ')'])) := by
    simp [ofSource, stripMark, byteOrderMark]
  obtain ⟨b₁, p₁, hopen⟩ := spells_words
    (Scan.words_mark (c := '(') (by decide) ('\n' :: (body.toList ++ ['\n', ')']))) (by simp)
    (atToken_ofChars (c := '(') (by decide) _) rfl
  obtain ⟨b₂, p₂, hfirst⟩ := @spells_break (wrapped false b₁ ('\n' :: (body.toList ++ ['\n', ')'])) p₁) []
    (body.toList ++ ['\n', ')']) (List.forall_mem_nil _) rfl rfl
  have hwords := hbody.words hlegible
    (Scan.endsWord_cons (c := '\n') (by decide) [')'])
  obtain ⟨b₃, p₃, hinner⟩ := @spells_words _ _ _ hwords hne
    (wrapped true b₂ (body.toList ++ ['\n', ')']) p₂) ⟨rfl, fun _ hdepth => by cases hdepth⟩ rfl
  have hflat : words.foldl Scan.nestWord 1 = 1 := hbalanced.foldl_nestWord hsigns 1
  rw [show (wrapped true b₂ (body.toList ++ ['\n', ')']) p₂).depth = 1 from rfl, hflat] at hinner
  obtain ⟨b₄, p₄, hsecond⟩ := @spells_break (wrapped false b₃ ['\n', ')'] p₃) [] [')']
    (List.forall_mem_nil _) rfl rfl
  obtain ⟨b₅, p₅, hclose⟩ := @spells_words _ _ _ (Scan.words_mark (c := ')') (by decide) []) (by simp)
    (wrapped true b₄ [')'] p₄) ⟨rfl, fun _ hdepth => by cases hdepth⟩ rfl
  have hend := @tokenizes_end ((wrapped true b₄ [')'] p₄).within 0 |>.elsewhere b₅ [] p₅) rfl
    (List.forall_mem_nil _)
  rw [hsource]
  exact hopen.tokenizes (hfirst.tokenizes (hinner.tokenizes (hsecond.tokenizes (hclose.tokenizes hend))))

/-- **A phrase of the grammar is read as its tree,** whatever spaces stand between its words. -/
theorem parseExpression_of_forms {words : List Spelling} {e : Expr} (h : Forms .conditional words e)
    (hlegible : ∀ w ∈ words, Scan.Legible w)
    (hsigns : ∀ w ∈ words, w.1 = .operator → w.2 ∈ expressionSigns) {body : String}
    (hbody : Scan.Spaced words body.toList) : parseExpression body = .ok e := by
  refine Parser.parse_of_tokenizes (tokenizes_wrapped hlegible hsigns h.balanced h.ne_nil hbody)
    fun ts hts => ?_
  have hsentence : Sentence (sign "(" :: (words ++ [sign ")"])) e :=
    h.parentheses.of_rank_le (by decide) (by decide) (by decide)
  have hsplit : ts.map Token.spelling =
      (sign "(" :: (words ++ [sign ")"])) ++ [(.newline, ""), (.endMarker, "")] := by
    rw [hts, List.filter_cons_of_pos (by rfl), List.filter_cons_of_neg (by decide), List.filter_append,
      filter_isSignificant h.balanced.isWord]
    simp [isSignificant]
  obtain ⟨es, last, rfl, hes, hlast⟩ := List.map_eq_append_iff.1 hsplit
  obtain ⟨newline, last, rfl, hnewline, hlast⟩ := List.map_eq_cons_iff.1 hlast
  obtain ⟨marker, last, rfl, hmarker, hlast⟩ := List.map_eq_cons_iff.1 hlast
  obtain rfl := List.map_eq_nil_iff.1 hlast
  have hlength : (sign "(" :: (words ++ [sign ")"])).length = es.length := by
    rw [← hes, List.length_map]
  generalize hn : Parser.depthFor (es ++ [newline, marker]) = n
  have hdepth : 20 * es.length + 2 ≤ n := by
    rw [← hn, Parser.depthFor, List.length_append]
    omega
  have hexpr : (Parser.expr n).run (es ++ [newline, marker]) = .ok (e, [newline, marker]) :=
    Parser.expr_complete hsentence hes (by omega) (Parser.stops_cons hnewline (by decide))
  exact ⟨[], Parser.wholeExpression_of_expr (by omega) hexpr (Prod.ext_iff.1 hnewline).1
    (Prod.ext_iff.1 hmarker).1⟩

/-- **An expression that is written is read back.** -/
theorem parseExpression_of_spaced {e : Expr} (h : e.Printable) {body : String}
    (hbody : Scan.Spaced (e.words .conditional) body.toList) : parseExpression body = .ok e :=
  parseExpression_of_forms (h.forms (by decide)) (h.parts _).legible (h.parts _).operators hbody

/-- An expression is read back from its words with a space between any two of them. -/
theorem parseExpression_joined {e : Expr} (h : e.Printable) :
    parseExpression (String.ofList (Scan.joined (e.words .conditional))) = .ok e := by
  refine parseExpression_of_spaced h ?_
  rw [String.toList_ofList]
  exact Scan.spaced_joined _

/-! ### Blocks -/

theorem forall_mem_head?_append {p : Char → Prop} {front rest : List Char}
    (hfront : ∀ c ∈ front.head?, p c) (hrest : ∀ c ∈ rest.head?, p c) : ∀ c ∈ (front ++ rest).head?, p c := by
  cases front with
  | nil => exact hrest
  | cons d front => exact hfront

/-- No line begins with a byte order mark. -/
theorem Row.unmarked {indent : Nat} {line : List Stmt} {row : List Char} (h : Row indent line row)
    (hline : ∀ s ∈ line, s.Printable) : ∀ c ∈ row.head?, c ≠ byteOrderMark := by
  have hgap {gap : List Char} (hgap : ∀ c ∈ gap, Scan.isGap c = true) :
      ∀ c ∈ gap.head?, c ≠ byteOrderMark := by
    rintro c hc rfl
    exact absurd (hgap _ (List.mem_of_mem_head? hc)) (by decide)
  cases h with
  | blank h => exact hgap h
  | comment h _ => exact forall_mem_head?_append (hgap h) (by simp [byteOrderMark])
  | statements hne htext =>
    refine forall_mem_head?_append (hgap (by simp [Scan.isGap])) ?_
    obtain ⟨s, line, rfl⟩ := List.exists_cons_of_ne_nil hne
    have hparts := lineWords_parts hline
    cases hwords : lineWords (s :: line) with
    | nil =>
      rw [hwords] at htext
      cases htext
      simp
    | cons w words =>
      rw [hwords] at htext hparts
      obtain ⟨behind, rfl⟩ := htext.begins
      have hw := hparts w List.mem_cons_self
      obtain ⟨c, x, hx⟩ := List.exists_cons_of_ne_nil hw.legible.ne_nil
      rw [hx]
      exact fun d hd => hw.unmarked d (by rw [hx]; exact hd)

/-- A block does not begin with a byte order mark. -/
theorem Layout.stripMark_eq {indent : Nat} {stmts : List Stmt} {text : List Char}
    (h : Layout indent stmts text) (hstmts : ∀ s ∈ stmts, s.Printable) : stripMark text = text := by
  have hunmarked : ∀ c ∈ text.head?, c ≠ byteOrderMark := by
    cases h with
    | last hrow => exact hrow.unmarked hstmts
    | more hrow _ =>
      rw [List.forall_mem_append] at hstmts
      exact forall_mem_head?_append (hrow.unmarked hstmts.1) (by simp [byteOrderMark])
  exact stripMark_of_ne fun hmark => hunmarked _ hmark rfl

/-- **A block that is written is read back.** -/
theorem parseStatements_of_layout {indent : Nat} {stmts : List Stmt} {body : String}
    (hstmts : ∀ s ∈ stmts, s.Printable) (h : Layout indent stmts body.toList) :
    parseStatements body = .ok stmts := by
  obtain ⟨words, hwords, lines, hlines, hsplit⟩ :=
    @Layout.tokenizes indent [0] stmts [] body.toList .origin h hstmts (Nat.zero_le _)
  have hsource : (ofSource body).Tokenizes words := by
    rw [ofSource, h.stripMark_eq hstmts]
    exact hwords
  refine Parser.parse_of_tokenizes hsource fun ts hts => ?_
  have hdepth : 20 * ts.length ≤ Parser.depthFor ts := by
    unfold Parser.depthFor
    omega
  rcases hsplit with hsplit | ⟨-, hsplit⟩
  · rw [hsplit] at hts
    obtain ⟨rest, hrest⟩ := Parser.statements_complete hlines hts hdepth
    have hhead : ((ts.headD Parser.endToken).kind == .indent) = false := by
      cases ts with
      | nil => rfl
      | cons t ts =>
        have hne := hlines.head_ne_indent t.spelling (by rw [← hts]; rfl)
        exact beq_false_of_ne hne
    refine ⟨rest, ?_⟩
    rw [Parser.block, StateT.run_bind, Parser.run_accept, hhead]
    exact hrest
  · rw [hsplit] at hts
    obtain ⟨t, ts, rfl, ht, hts⟩ := List.map_eq_cons_iff.1 hts
    obtain ⟨rest, hrest⟩ := Parser.statements_complete hlines hts
      (show 20 * ts.length ≤ Parser.depthFor (t :: ts) by rw [List.length_cons] at hdepth; omega)
    have hhead : (t.kind == .indent) = true := beq_iff_eq.2 (Prod.ext_iff.1 ht).1
    refine ⟨rest, ?_⟩
    rw [Parser.block, StateT.run_bind, Parser.run_accept, List.headD_cons, hhead]
    exact hrest

/-- **Host code that is written is read back:** expressions with a space between any two of their words, and
with spaces only where the words need them, and blocks of statements, whatever their indentation and whatever blank
lines and comments stand between them. -/
theorem written_code_reads_back :
    (∀ e : Expr, e.Printable →
      parseExpression (String.ofList (Scan.joined (e.words .conditional))) = .ok e ∧
      ∀ body : String, Scan.Spaced (e.words .conditional) body.toList → parseExpression body = .ok e) ∧
    (∀ stmts : List Stmt, (∀ s ∈ stmts, s.Printable) → ∀ (indent : Nat) (body : String),
      Layout indent stmts body.toList → parseStatements body = .ok stmts) :=
  ⟨fun _ h => ⟨parseExpression_joined h, fun _ hbody => parseExpression_of_spaced h hbody⟩,
    fun _ hstmts _ _ h => parseStatements_of_layout hstmts h⟩

/-- A sum times a negative. -/
def scaledSum : Expr :=
  .binary .mul (.binary .add (.name "a") (.name "b")) (.unary .neg (.name "c"))

/-- Two statements on a line, and one on a line of its own. -/
def scaledBlock : List Stmt := [.assign "x" scaledSum, .augAssign "x" .pow (.name "c")] ++ [.pass]

theorem isName_letter {id : String} (h : id ∈ ["a", "b", "c", "x"]) : IsName id := by
  have hall : ∀ id ∈ ["a", "b", "c", "x"], Scan.isIdentifier id.toList = true ∧
      (∀ c ∈ id.toList, c.toNat < 0x80) ∧ isKeyword id = false ∧ id ∉ ["True", "False", "None"] := by
    decide
  obtain ⟨hidentifier, hascii, hkeyword, hvalue⟩ := hall id h
  exact ⟨hidentifier, hascii, hkeyword, hvalue⟩

theorem scaledSum_printable : scaledSum.Printable :=
  .binary _ (.binary _ (.name (isName_letter (by decide))) (.name (isName_letter (by decide))))
    (.unary _ (.name (isName_letter (by decide))))

theorem scaledSum_spaced : Scan.Spaced (scaledSum.words .conditional) "(a + b) * -c".toList := by
  have hwords : scaledSum.words .conditional = [sign "(", word "a", sign "+", word "b", sign ")", sign "*",
      sign "-", word "c"] := by decide
  rw [hwords]
  exact .touch (by decide) (.space _ (.space _ (.touch (by decide) (.space _ (.space _
    (.touch (by decide) (.last _)))))))

theorem scaledBlock_printable : ∀ s ∈ scaledBlock, s.Printable := by
  have hx : IsName "x" := isName_letter (by decide)
  have hc : IsName "c" := isName_letter (by decide)
  simp only [scaledBlock, List.cons_append, List.nil_append, List.forall_mem_cons]
  exact ⟨.assign hx scaledSum_printable, .augAssign _ hx (.name hc), .pass, List.forall_mem_nil _⟩

theorem scaledBlock_layout :
    Layout 2 scaledBlock "  x = (a + b) * -c; x **= c\n\n # done\n  pass".toList := by
  have hwords : lineWords [.assign "x" scaledSum, .augAssign "x" .pow (.name "c")] = [word "x", sign "=",
      sign "(", word "a", sign "+", word "b", sign ")", sign "*", sign "-", word "c", sign ";", word "x",
      sign "**=", word "c"] := by decide
  have hspaced : Scan.Spaced (lineWords [.assign "x" scaledSum, .augAssign "x" .pow (.name "c")])
      "x = (a + b) * -c; x **= c".toList := by
    rw [hwords]
    exact .space _ (.space _ (.touch (by decide) (.space _ (.space _ (.touch (by decide) (.space _ (.space _
      (.touch (by decide) (.touch (by decide) (.space _ (.space _ (.space _ (.last _)))))))))))))
  have hblank : Row 2 [] [] := .blank (List.forall_mem_nil _)
  have hnote : Row 2 [] " # done".toList :=
    @Row.comment 2 [' '] " done".toList (by decide) (by decide)
  have hpass : Row 2 [.pass] "  pass".toList := .statements (by simp) (.last (word "pass"))
  exact .more (.statements (by simp) hspaced) (.more hblank (.more hnote (.last hpass)))

/-- The sum and the block are read back. -/
theorem scaled_code_reads_back :
    parseExpression "(a + b) * -c" = .ok scaledSum ∧
      parseStatements "  x = (a + b) * -c; x **= c\n\n # done\n  pass" = .ok scaledBlock :=
  ⟨(written_code_reads_back.1 scaledSum scaledSum_printable).2 _ scaledSum_spaced,
    written_code_reads_back.2 scaledBlock scaledBlock_printable 2 _ scaledBlock_layout⟩

end Quasiquote.Host
