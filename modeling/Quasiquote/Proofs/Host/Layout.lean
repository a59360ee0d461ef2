import Quasiquote.Proofs.Host.Statements
import Quasiquote.Proofs.Source.Rows

/-!
# Blocks of statements as they are written

Statements on lines of their own or with semicolons between them, indented by some spaces that are the
same for all lines, with blank lines and comments between the lines.

## Main Definitions

* `Host.Row` — a line without its end, and the statements on it
* `Host.Layout` — lines with line feeds between them

## Main Statements

* `Host.foldl_nestWord_line` — the words of a line leave no bracket open
* `Host.Layout.tokenizes` — the tokens of a block are lines of statements
-/

namespace Quasiquote.Host

/-! ### Brackets -/

/-- The bracket depth behind a word of host code. -/
theorem nestWord_of_sign {w : Spelling} (h : w.1 = .operator → w.2 ∈ expressionSigns ++ statementSigns)
    (depth : Nat) :
    Scan.nestWord depth w = if opens w then depth + 1 else if closes w then depth - 1 else depth := by
  obtain ⟨kind, text⟩ := w
  by_cases hkind : kind = .operator
  · subst hkind
    have hall : ∀ text ∈ expressionSigns ++ statementSigns,
        opens (sign text) = text.toList.head?.any (fun c => decide (c = '(' ∨ c = '[' ∨ c = '\x7b')) ∧
        closes (sign text) = text.toList.head?.any fun c => decide (c = ')' ∨ c = ']' ∨ c = '\x7d') := by
      decide
    obtain ⟨hopens, hcloses⟩ := hall text (h rfl)
    show text.toList.head?.elim depth (Scan.nest depth) = _
    rw [hopens, hcloses]
    cases text.toList.head? with
    | none => rfl
    | some c =>
      rw [Option.elim_some, Scan.nest, Option.any_some, Option.any_some]
      simp only [decide_eq_true_eq]
  · have hplain : opens (kind, text) = false ∧ closes (kind, text) = false := by
      simp [opens, closes, hkind]
    rw [hplain.1, hplain.2, if_neg Bool.false_ne_true, if_neg Bool.false_ne_true]
    exact Scan.nestWord_of_ne hkind depth

theorem not_closes_of_opens {w : Spelling} (h : opens w = true) : closes w = false := by
  simp only [opens, decide_eq_true_eq] at h
  revert w
  decide

/-- Words that close no bracket but those that they or the words before them have opened. -/
theorem foldl_nestWord_eq {words : List Spelling}
    (hsigns : ∀ w ∈ words, w.1 = .operator → w.2 ∈ expressionSigns ++ statementSigns) (depth : Nat)
    (h : ∀ n, (words.take n).countP closes ≤ depth + (words.take n).countP opens) :
    words.foldl Scan.nestWord depth + words.countP closes = depth + words.countP opens := by
  induction words generalizing depth with
  | nil => rfl
  | cons w words ih =>
    rw [List.forall_mem_cons] at hsigns
    have hone := h 1
    have hbehind (n : Nat) := h (n + 1)
    simp only [List.take_succ_cons, List.countP_cons, List.take_zero, List.countP_nil] at hone hbehind
    rw [List.foldl_cons, List.countP_cons, List.countP_cons, nestWord_of_sign hsigns.1]
    cases hopens : opens w with
    | true =>
      have hcloses := not_closes_of_opens hopens
      simp only [hopens, hcloses, if_true, Bool.false_eq_true, if_false] at hone hbehind ⊢
      have hall := ih hsigns.2 (depth + 1) fun n => by
        have hn := hbehind n
        omega
      omega
    | false =>
      cases hcloses : closes w with
      | true =>
        simp only [hopens, hcloses, if_true, Bool.false_eq_true, if_false] at hone hbehind ⊢
        have hall := ih hsigns.2 (depth - 1) fun n => by
          have hn := hbehind n
          omega
        omega
      | false =>
        simp only [hopens, hcloses, Bool.false_eq_true, if_false] at hone hbehind ⊢
        exact ih hsigns.2 depth fun n => by
          have hn := hbehind n
          omega

/-- Balanced words leave no bracket open. -/
theorem Balanced.foldl_nestWord {words : List Spelling} (h : Balanced words)
    (hsigns : ∀ w ∈ words, w.1 = .operator → w.2 ∈ expressionSigns) (depth : Nat) :
    words.foldl Scan.nestWord depth = depth := by
  have hall := foldl_nestWord_eq
    (fun w hw hkind => List.mem_append_left _ (hsigns w hw hkind)) depth
    fun n => Nat.le_trans (h.enclosed n) (Nat.le_add_left _ _)
  rw [h.closed] at hall
  omega

/-- The words of a statement leave no bracket open. -/
theorem Stmt.Printable.foldl_nestWord {s : Stmt} (h : s.Printable) (depth : Nat) :
    s.words.foldl Scan.nestWord depth = depth := by
  have hvalue {value : Expr} (h : value.Printable) (depth : Nat) :
      (value.words .conditional).foldl Scan.nestWord depth = depth :=
    (h.forms (by decide)).balanced.foldl_nestWord (h.parts _).operators depth
  cases h with
  | assign _ h => exact hvalue h depth
  | augAssign op _ h =>
    have hop : Scan.nestWord depth (sign (op.symbol ++ "=")) = depth := by
      rw [nestWord_of_sign fun _ => by cases op <;> decide]
      cases op <;> rfl
    have hname (name : String) : Scan.nestWord depth (word name) = depth := rfl
    rw [Stmt.words, List.foldl_cons, List.foldl_cons, hname, hop]
    exact hvalue h depth
  | expr h => exact hvalue h depth
  | pass => rfl

/-- The words of statements on a line leave no bracket open. -/
theorem foldl_nestWord_line {line : List Stmt} (h : ∀ s ∈ line, s.Printable) (depth : Nat) :
    (lineWords line).foldl Scan.nestWord depth = depth := by
  have hmore {line : List Stmt} (h : ∀ s ∈ line, s.Printable) :
      (moreWords line).foldl Scan.nestWord depth = depth := by
    induction line with
    | nil => rfl
    | cons s line ih =>
      rw [List.forall_mem_cons] at h
      have hsemicolon : Scan.nestWord depth (sign ";") = depth := rfl
      rw [moreWords, List.flatMap_cons, List.cons_append, List.foldl_cons, List.foldl_append, hsemicolon,
        h.1.foldl_nestWord]
      exact ih h.2
  cases line with
  | nil => rfl
  | cons s line =>
    rw [List.forall_mem_cons] at h
    rw [lineWords_cons, List.foldl_append, h.1.foldl_nestWord, hmore h.2]

/-! ### Texts of blocks -/

/-- **A line without its end,** and the statements on it. -/
inductive Row (indent : Nat) : List Stmt → List Char → Prop
  | blank {gap : List Char} : (∀ c ∈ gap, Scan.isGap c = true) → Row indent [] gap
  | comment {gap note : List Char} : (∀ c ∈ gap, Scan.isGap c = true) →
      (∀ c ∈ note, Scan.endsLine c = false) → Row indent [] (gap ++ '#' :: note)
  | statements {line : List Stmt} {text : List Char} : line ≠ [] → Scan.Spaced (lineWords line) text →
      Row indent line (List.replicate indent ' ' ++ text)

/-- **Lines with line feeds between them,** and the statements on all of them. -/
inductive Layout (indent : Nat) : List Stmt → List Char → Prop
  | last {line : List Stmt} {row : List Char} : Row indent line row → Layout indent line row
  | more {line stmts : List Stmt} {row text : List Char} : Row indent line row →
      Layout indent stmts text → Layout indent (line ++ stmts) (row ++ '\n' :: text)

/-! ### Their tokens -/

/-- Whether a word matters to the grammar: comments and line breaks inside a logical line do not. -/
def isSignificant (w : Spelling) : Bool := !(w.1 == .comment || w.1 == .lineBreak)

/-- Words matter. -/
theorem filter_isSignificant {words : List Spelling} (h : ∀ w ∈ words, w.1.isWord = true) :
    words.filter isSignificant = words := by
  refine List.filter_eq_self.2 fun w hw => ?_
  have hword : w.1.isWord = true := h w hw
  revert hword
  unfold isSignificant
  cases w.1 <;> decide

/-- **Tokens that are lines of statements** as far as they matter. There is an indent before them if the
lines are deeper than the levels that are open. -/
def SpellsLines (levels : List Nat) (indent : Nat) (stmts : List Stmt) (words : List Spelling) : Prop :=
  ∃ lines, Lines stmts lines ∧ (words.filter isSignificant = lines ∨
    levels.headD 0 < indent ∧
      words.filter isSignificant = (.indent, String.ofList (List.replicate indent ' ')) :: lines)

open Lexer

variable {indent : Nat} {levels : List Nat} {stmts line : List Stmt} {behind text rest : List Char}
  {p : Position} {words : List Spelling}

/-- All that ends the indentation matters, and there are no more statements then. -/
theorem lines_end (n : Nat) :
    Lines [] ((List.replicate n ((.dedent, "") : Spelling) ++
      [((.endMarker, "") : Spelling)]).filter isSignificant) := by
  induction n with
  | zero => exact .done
  | succ n ih => exact ih.dedent

/-- Tokens that do not matter may stand before lines of statements. -/
theorem SpellsLines.prepend (h : SpellsLines levels indent stmts words) {front : List Spelling}
    (hfront : front.filter isSignificant = []) : SpellsLines levels indent stmts (front ++ words) := by
  unfold SpellsLines
  rw [List.filter_append, hfront, List.nil_append]
  exact h

/-- Lines that are as deep as the open levels have no indent before them. -/
theorem SpellsLines.lines (h : SpellsLines levels indent stmts words) (hlevels : levels.headD 0 = indent) :
    Lines stmts (words.filter isSignificant) := by
  obtain ⟨lines, hlines, hwords | ⟨hdeeper, -⟩⟩ := h
  · rwa [hwords]
  · omega

/-- One more line. -/
theorem spellsLines_line (hne : line ≠ []) (hline : ∀ s ∈ line, s.Printable) (feed : String)
    (h : Lines stmts (words.filter isSignificant)) :
    SpellsLines levels indent (line ++ stmts)
      (indentWords levels indent ++ lineWords line ++ (.newline, feed) :: words) := by
  have hwords := filter_isSignificant fun w hw => (lineWords_parts hline w hw).isWord
  refine ⟨_, .line feed hne hline h, ?_⟩
  rw [List.append_assoc, List.filter_append, List.filter_append, hwords]
  unfold indentWords
  split
  · next hdeeper => exact .inr ⟨hdeeper, rfl⟩
  · exact .inl rfl

/-- The words of a line are read, with an indent before them if the line is deeper. -/
theorem spells_line (hne : line ≠ []) (hline : ∀ s ∈ line, s.Printable)
    (htext : Scan.Spaced (lineWords line) text) (hindent : levels.headD 0 ≤ indent)
    (hrest : Scan.EndsWord rest) :
    ∃ b q, (atRow levels behind (List.replicate indent ' ' ++ (text ++ rest)) p).Spells
      (indentWords levels indent ++ lineWords line) (inRow (openedBy levels indent) b rest q) := by
  have hparts := lineWords_parts hline
  have hwords := htext.words hparts.legible hrest
  have hflat := foldl_nestWord_line hline 0
  have hnonempty : lineWords line ≠ [] := by
    obtain ⟨s, line, rfl⟩ := List.exists_cons_of_ne_nil hne
    rw [lineWords_cons]
    simp [(hline s List.mem_cons_self).words_ne_nil]
  refine spells_row hindent hnonempty ?_ hwords hflat
  -- the first word begins like a lexeme
  obtain ⟨w, more, hw⟩ := List.exists_cons_of_ne_nil hnonempty
  rw [hw] at htext
  have hlegible := (hparts w (by rw [hw]; exact List.mem_cons_self)).legible
  obtain ⟨behind, rfl⟩ := htext.begins
  obtain ⟨c, x, hx⟩ := List.exists_cons_of_ne_nil hlegible.ne_nil
  have hread := hlegible [] Scan.endsWord_nil
  rw [List.append_nil, hx] at hread
  exact ⟨c, x ++ (behind ++ rest), by simp [hx], Scan.startsLexeme_of_lexeme hread⟩

/-- **The tokens of a block are lines of statements.** -/
theorem Layout.tokenizes (h : Layout indent stmts text) (hstmts : ∀ s ∈ stmts, s.Printable)
    (hindent : levels.headD 0 ≤ indent) :
    ∃ words, (atRow levels behind text p).Tokenizes words ∧ SpellsLines levels indent stmts words := by
  induction h generalizing levels behind p with
  | last hrow =>
    cases hrow with
    | blank hgap => exact ⟨_, tokenizes_end rfl hgap, _, lines_end _, .inl rfl⟩
    | @comment gap note hgap hnote =>
      obtain ⟨b, q, hrow⟩ := @spells_comment levels behind gap [] p hgap note hnote (by simp)
      have hend := @tokenizes_end (atRow levels b [] q).onLine rfl (List.forall_mem_nil _)
      rw [List.append_nil] at hrow
      refine ⟨_, hrow.tokenizes hend, ?_⟩
      exact SpellsLines.prepend ⟨_, lines_end _, .inl rfl⟩ rfl
    | statements hne hspaced =>
      next line _ =>
      obtain ⟨b, q, hrow⟩ := spells_line hne hstmts hspaced hindent Scan.endsWord_nil
      have hend := @tokenizes_end (inRow (openedBy levels indent) b [] q) rfl (List.forall_mem_nil _)
      rw [List.append_nil] at hrow
      refine ⟨_, hrow.tokenizes hend, ?_⟩
      have hlines : SpellsLines levels indent (line ++ []) _ :=
        spellsLines_line hne hstmts "" (lines_end ((openedBy levels indent).length - 1))
      rw [List.append_nil] at hlines
      exact hlines
  | more hrow hlayout ih =>
    rw [List.forall_mem_append] at hstmts
    cases hrow with
    | blank hgap =>
      obtain ⟨b, q, hrow⟩ := spells_blankRow hgap
      obtain ⟨words, hwords, hlines⟩ := ih hstmts.2 hindent
      exact ⟨_, hrow.tokenizes hwords, hlines.prepend rfl⟩
    | comment hgap hnote =>
      rw [List.append_assoc, List.cons_append]
      obtain ⟨b, q, hrow⟩ := spells_commentRow hgap hnote
      obtain ⟨words, hwords, hlines⟩ := ih hstmts.2 hindent
      exact ⟨_, hrow.tokenizes hwords, hlines.prepend rfl⟩
    | statements hne hspaced =>
      have hlevels := headD_openedBy hindent
      rw [List.append_assoc]
      obtain ⟨b, q, hrow⟩ := spells_line hne hstmts.1 hspaced hindent
        (Scan.endsWord_cons (c := '\n') (by decide) _)
      obtain ⟨b', q', hfeed⟩ := spells_newline
      obtain ⟨words, hwords, hlines⟩ := ih hstmts.2 (Nat.le_of_eq hlevels)
      refine ⟨_, hrow.tokenizes (hfeed.tokenizes hwords), ?_⟩
      exact spellsLines_line hne hstmts.1 "\n" (hlines.lines hlevels)

end Quasiquote.Host
