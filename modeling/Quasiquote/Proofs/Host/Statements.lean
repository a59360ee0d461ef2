import Quasiquote.Proofs.Host.Complete
import Quasiquote.Proofs.Host.Printing

/-!
# Lines of statements are read

The words of a statement are read as the statement, and lines of statements as all of them in their
order. A statement that begins with a name is told from an assignment by its second word: no operator of
an expression is one of those that assign.

## Main Definitions

* `Host.Stmt.words`, `Host.lineWords` — the words of a statement and of a line
* `Host.Stmt.Printable` — statements over names and expressions that can be written
* `Host.Lines` — lines of statements up to the end

## Main Statements

* `Host.Parser.statement_complete` — a statement is read
* `Host.Parser.statements_complete` — lines of statements are read
-/

namespace Quasiquote.Host

/-! ### The words of statements -/

/-- The words of a statement. -/
def Stmt.words : Stmt → List Spelling
  | .assign name value => word name :: sign "=" :: value.words .conditional
  | .augAssign name op value => word name :: sign (op.symbol ++ "=") :: value.words .conditional
  | .expr value => value.words .conditional
  | .pass => [word "pass"]

/-- The words of statements on one line, with semicolons between them. -/
def lineWords (line : List Stmt) : List Spelling := [sign ";"].intercalate (line.map Stmt.words)

/-- **Statements over names and expressions that can be written.** -/
inductive Stmt.Printable : Stmt → Prop
  | assign {name : String} {value : Expr} : IsName name → value.Printable →
      Printable (.assign name value)
  | augAssign {name : String} (op : BinaryOp) {value : Expr} : IsName name → value.Printable →
      Printable (.augAssign name op value)
  | expr {value : Expr} : value.Printable → Printable (.expr value)
  | pass : Printable .pass

/-- The words of further statements of a line, each behind a semicolon. -/
def moreWords (line : List Stmt) : List Spelling := line.flatMap fun s => sign ";" :: s.words

theorem lineWords_cons (s : Stmt) (line : List Stmt) : lineWords (s :: line) = s.words ++ moreWords line := by
  induction line generalizing s with
  | nil => simp [lineWords, moreWords]
  | cons next line ih =>
    have hnext : lineWords (s :: next :: line) = s.words ++ sign ";" :: lineWords (next :: line) := by
      simp [lineWords, List.intercalate]
    rw [hnext, ih]
    simp [moreWords]

namespace Stmt.Printable

variable {s : Stmt}

theorem words_ne_nil (h : s.Printable) : s.words ≠ [] := by
  cases h with
  | assign => simp [words]
  | augAssign => simp [words]
  | expr h => exact (h.forms (by decide)).ne_nil
  | pass => simp [words]

/-- The words of a statement are legible. -/
theorem parts (h : s.Printable) : Parts (expressionSigns ++ statementSigns) s.words := by
  have hvalue {value : Expr} (h : value.Printable) :
      Parts (expressionSigns ++ statementSigns) (value.words .conditional) :=
    (h.parts _).mono (List.subset_append_left _ _)
  have hsign {text : String} (h : text ∈ expressionSigns ++ statementSigns) :
      IsPart (expressionSigns ++ statementSigns) (sign text) := isPart_sign h h
  cases h with
  | assign hname h => exact ((hvalue h).cons (hsign (by decide))).cons (hname.isPart _)
  | augAssign op hname h =>
    exact ((hvalue h).cons (hsign (by cases op <;> decide))).cons (hname.isPart _)
  | expr h => exact hvalue h
  | pass => exact .single (isPart_word (by decide) (by decide) _)

/-- The first token of a statement is a word. -/
theorem tokens {ts : List Token} (h : s.Printable) (hts : ts.map Token.spelling = s.words) :
    ∃ t rest, ts = t :: rest ∧ t.kind.isWord = true := by
  obtain ⟨w, words, hwords⟩ := List.exists_cons_of_ne_nil h.words_ne_nil
  have hpart := h.parts w (by rw [hwords]; exact List.mem_cons_self)
  rw [hwords] at hts
  obtain ⟨t, rest, rfl, rfl, -⟩ := List.map_eq_cons_iff.1 hts
  exact ⟨t, rest, rfl, hpart.isWord⟩

end Stmt.Printable

/-- The words of statements on a line are legible. -/
theorem lineWords_parts {line : List Stmt} (h : ∀ s ∈ line, s.Printable) :
    Parts (expressionSigns ++ statementSigns) (lineWords line) :=
  .intercalate (isPart_sign (by decide) (by decide)) (List.forall_mem_map.2 fun s hs => (h s hs).parts)

/-- **Lines of statements,** each with the end of a logical line behind it, up to the end. -/
inductive Lines : List Stmt → List Spelling → Prop
  | done : Lines [] [(.endMarker, "")]
  | dedent {stmts : List Stmt} {words : List Spelling} : Lines stmts words →
      Lines stmts ((.dedent, "") :: words)
  | line {line stmts : List Stmt} {words : List Spelling} (feed : String) : line ≠ [] →
      (∀ s ∈ line, s.Printable) → Lines stmts words →
      Lines (line ++ stmts) (lineWords line ++ (.newline, feed) :: words)

/-- Lines do not begin with an indent. -/
theorem Lines.head_ne_indent {stmts : List Stmt} {words : List Spelling} (h : Lines stmts words) :
    ∀ w ∈ words.head?, w.1 ≠ .indent := by
  cases h with
  | done => simp
  | dedent => simp
  | @line line _ _ _ hne hline =>
    obtain ⟨s, line, rfl⟩ := List.exists_cons_of_ne_nil hne
    rw [List.forall_mem_cons] at hline
    obtain ⟨w, more, hwords⟩ := List.exists_cons_of_ne_nil hline.1.words_ne_nil
    have hword := (hline.1.parts w (by rw [hwords]; exact List.mem_cons_self)).isWord
    rw [lineWords_cons, hwords]
    rintro w' hw' hindent
    obtain rfl : w = w' := by simpa using hw'
    rw [hindent] at hword
    cases hword

namespace Parser

variable {ts rest : List Token} {t : Token}

/-! ### Statements -/

/-- An operator that may follow the first word of an expression, or the end of a statement. -/
theorem not_assignment {text : String} (h : text ∈ ";" :: expressionSigns) :
    text ≠ "=" ∧ BinaryOp.ofAugmented? text = none := by
  revert text
  decide

/-- A word that may follow a statement. -/
def Follower (w : Spelling) : Prop := w = sign ";" ∨ w.1 = .newline

theorem Follower.stops (ht : Follower t.spelling) : Stops .conditional (t :: rest) := by
  refine stops_cons rfl ?_
  rcases ht with ht | ht
  · rw [ht]
    decide
  · generalize t.spelling = w at ht
    obtain ⟨kind, text⟩ := w
    obtain rfl : kind = .newline := ht
    simp [Level.continues, Level.continuesComparison, Level.continuesOperand, Level.continuesPower,
      Level.continuesPrimary]

theorem isName_of_ne {text : String} (h : t.spelling ≠ word text) : t.isName text = false := by
  rw [Bool.eq_false_iff]
  exact fun hword => h (spelling_eq_iff.2 hword)

/-- The words of an expression are read in front of what may follow a statement. -/
theorem expression_complete {value : Expr} (h : value.Printable)
    (hts : ts.map Token.spelling = value.words .conditional) (ht : Follower t.spelling) {n : Nat}
    (hn : 20 * ts.length ≤ n + 10) : (expr n).run (ts ++ t :: rest) = .ok (value, t :: rest) := by
  have hlength : (value.words .conditional).length = ts.length := by rw [← hts, List.length_map]
  exact expr_complete (h.forms (by decide)) hts (by omega) ht.stops

/-- The tokens of a name with an operator behind it, in front of further words. -/
theorem tokens_of_assignment {name text : String} {words : List Spelling} (hname : IsName name)
    (hts : ts.map Token.spelling = word name :: sign text :: words) :
    ∃ first second vs, ts = first :: second :: vs ∧ first.text = name ∧ second.text = text ∧
      vs.map Token.spelling = words ∧ first.isName "pass" = false ∧
      (first.kind = .name ∧ (!isKeyword first.text) = true ∧ second.kind = .operator) := by
  obtain ⟨first, more, rfl, hfirst, hmore⟩ := List.map_eq_cons_iff.1 hts
  obtain ⟨second, vs, rfl, hsecond, hvs⟩ := List.map_eq_cons_iff.1 hmore
  have hpass : first.isName "pass" = false := by
    refine isName_of_ne fun hpass => ?_
    obtain rfl : name = "pass" := (Prod.ext_iff.1 (hfirst.symm.trans hpass)).2
    exact absurd hname.keyword (by decide)
  rw [Token.spelling, Prod.mk.injEq] at hfirst hsecond
  refine ⟨first, second, vs, rfl, hfirst.2, hsecond.2, hvs, hpass, hfirst.1, ?_, hsecond.1⟩
  rw [hfirst.2, hname.keyword, Bool.not_false]

/-- The operator behind the first word of an expression, if one is there, does not assign. -/
theorem second_mem_signs {value : Expr} {first : Token} {later : List Token} (h : value.Printable)
    (hts : (first :: later).map Token.spelling = value.words .conditional) (ht : Follower t.spelling)
    (hkind : ((later ++ t :: rest).headD endToken).kind = .operator) :
    ((later ++ t :: rest).headD endToken).text ∈ ";" :: expressionSigns := by
  cases later with
  | nil =>
    rcases ht with ht | ht
    · have htext : t.text = ";" := (Prod.ext_iff.1 ht).2
      rw [List.nil_append, List.headD_cons, htext]
      exact List.mem_cons_self
    · exact absurd (ht.symm.trans hkind) (by decide)
  | cons second later =>
    have hmem : second.spelling ∈ value.words .conditional := by
      rw [← hts]
      exact List.mem_cons_of_mem _ List.mem_cons_self
    exact List.mem_cons_of_mem _ ((h.parts .conditional _ hmem).sign hkind)

/-- An expression on its own is read as a statement: its first word is no `pass`, and the second one
assigns nothing. -/
theorem expressionStatement_complete {value : Expr} (h : value.Printable)
    (hts : ts.map Token.spelling = value.words .conditional) (ht : Follower t.spelling) {n : Nat}
    (hn : 20 * ts.length ≤ n + 10) :
    (statement n).run (ts ++ t :: rest) = .ok (.expr value, t :: rest) := by
  have hread : ((expr n) >>= fun e => (pure (.expr e) : Rule Stmt)).run (ts ++ t :: rest) =
      .ok (.expr value, t :: rest) := by
    rw [run_bind_of_ok (expression_complete h hts ht hn)]
    rfl
  have hforms : Forms .conditional (value.words .conditional) value := h.forms (by decide)
  obtain ⟨w, more, hwords, hbegins⟩ := hforms.starts
  obtain ⟨first, later, rfl, hfirst, -⟩ := List.map_eq_cons_iff.1 (hts.trans hwords)
  have hpass : first.isName "pass" = false := by
    refine isName_of_ne ?_
    rw [hfirst]
    exact Level.ne_keyword hbegins (by decide) (by decide)
  rw [List.cons_append] at hread ⊢
  rw [statement, run_bind_of_ok (run_peek_cons first _), run_bind_of_ok (run_peekSecond _), List.tail_cons,
    hpass, if_neg Bool.false_ne_true]
  split
  · next hname =>
    obtain ⟨hequal, haugmented⟩ := not_assignment (second_mem_signs h hts ht hname.2.2)
    rw [if_neg hequal, haugmented]
    exact hread
  · exact hread

/-- A statement is read, where a semicolon or the end of the line follows. -/
theorem statement_complete {s : Stmt} (h : s.Printable) (hts : ts.map Token.spelling = s.words)
    (ht : Follower t.spelling) {n : Nat} (hn : 20 * ts.length ≤ n + 10) :
    (statement n).run (ts ++ t :: rest) = .ok (s, t :: rest) := by
  cases h with
  | assign hname hvalue =>
    obtain ⟨first, second, vs, rfl, hfirst, hsecond, hvs, hpass, hoperator⟩ := tokens_of_assignment hname hts
    rw [List.cons_append, List.cons_append, statement, run_bind_of_ok (run_peek_cons first _),
      run_bind_of_ok (run_peekSecond _), List.tail_cons, List.headD_cons, hpass, if_neg Bool.false_ne_true,
      if_pos hoperator, if_pos hsecond, run_bind_of_ok (run_advance_cons first _),
      run_bind_of_ok (run_advance_cons second _),
      run_bind_of_ok (expression_complete hvalue hvs ht (by simp only [List.length_cons] at hn; omega)),
      hfirst]
    rfl
  | augAssign op hname hvalue =>
    obtain ⟨first, second, vs, rfl, hfirst, hsecond, hvs, hpass, hoperator⟩ := tokens_of_assignment hname hts
    have hop : op.symbol ++ "=" ≠ "=" ∧ BinaryOp.ofAugmented? (op.symbol ++ "=") = some op := by
      cases op <;> decide
    rw [List.cons_append, List.cons_append, statement, run_bind_of_ok (run_peek_cons first _),
      run_bind_of_ok (run_peekSecond _), List.tail_cons, List.headD_cons, hpass, if_neg Bool.false_ne_true,
      if_pos hoperator, hsecond, if_neg hop.1, hop.2]
    dsimp only
    rw [run_bind_of_ok (run_advance_cons first _), run_bind_of_ok (run_advance_cons second _),
      run_bind_of_ok (expression_complete hvalue hvs ht (by simp only [List.length_cons] at hn; omega)),
      hfirst]
    rfl
  | expr hvalue => exact expressionStatement_complete hvalue hts ht hn
  | pass =>
    obtain ⟨first, rfl, hfirst⟩ := List.map_eq_singleton_iff.1 hts
    have hpass : first.isName "pass" = true := spelling_eq_iff.1 hfirst
    rw [List.singleton_append, statement, run_bind_of_ok (run_peek_cons first _),
      run_bind_of_ok (run_peekSecond _), if_pos hpass, run_bind_of_ok (run_advance_cons first _)]
    rfl

/-- The words behind a statement of a line begin with a semicolon, or the line ends. -/
theorem follower_of_line (rest : List Token) {line : List Stmt} (hts : ts.map Token.spelling = moreWords line)
    (ht : t.spelling.1 = .newline) : ∃ t' rest', ts ++ t :: rest = t' :: rest' ∧ Follower t'.spelling := by
  cases line with
  | nil =>
    obtain rfl := List.map_eq_nil_iff.1 hts
    exact ⟨t, rest, rfl, .inr ht⟩
  | cons s line =>
    rw [moreWords, List.flatMap_cons, List.cons_append] at hts
    obtain ⟨t', later, rfl, ht', -⟩ := List.map_eq_cons_iff.1 hts
    exact ⟨t', later ++ t :: rest, rfl, .inl ht'⟩

theorem endsStatement_of_isWord (h : t.kind.isWord = true) : endsStatement t = false := by
  revert h
  unfold endsStatement
  cases t.kind <;> decide

/-- The statements behind the first one of a line are read up to the end of the line. -/
theorem moreStatements_complete {line : List Stmt} (h : ∀ s ∈ line, s.Printable)
    (ht : t.spelling.1 = .newline) :
    ∀ {n : Nat} {ts : List Token}, ts.map Token.spelling = moreWords line → 20 * ts.length ≤ n →
      (moreStatements n).run (ts ++ t :: rest) = .ok (line, t :: rest) := by
  induction line with
  | nil =>
    intro n ts hts hn
    obtain rfl := List.map_eq_nil_iff.1 hts
    cases n with
    | zero => rfl
    | succ n =>
      have hother : ∀ t' ∈ (t :: rest).head?, t'.spelling ≠ sign ";" :=
        head?_spelling_ne rfl fun heq => by
          rw [heq] at ht
          cases ht
      rw [List.nil_append, moreStatements, run_ifOperator_of_ne _ _ hother]
      rfl
  | cons s line ih =>
    intro n ts hts hn
    rw [List.forall_mem_cons] at h
    rw [moreWords, List.flatMap_cons, List.cons_append] at hts
    obtain ⟨semicolon, more, rfl, hsemicolon, hmore⟩ := List.map_eq_cons_iff.1 hts
    obtain ⟨ss, later, rfl, hss, hlater⟩ := List.map_eq_append_iff.1 hmore
    simp only [List.length_cons, List.length_append] at hn
    obtain ⟨n, rfl⟩ : ∃ k, n = k + 1 := ⟨n - 1, by omega⟩
    obtain ⟨t', rest', hfollow, ht'⟩ := follower_of_line rest hlater ht
    have hstatement : (statement n).run (ss ++ (later ++ t :: rest)) = .ok (s, later ++ t :: rest) := by
      rw [hfollow]
      exact statement_complete h.1 hss ht' (by omega)
    have hgoes : endsStatement ((ss ++ (later ++ t :: rest)).headD endToken) = false := by
      obtain ⟨u, us, rfl, hu⟩ := h.1.tokens hss
      exact endsStatement_of_isWord hu
    rw [List.cons_append, List.append_assoc, moreStatements, run_ifOperator_of_eq _ _ hsemicolon,
      run_bind_of_ok (run_peek _), hgoes, if_neg Bool.false_ne_true, run_bind_of_ok hstatement,
      run_bind_of_ok (ih h.2 hlater (by omega))]
    rfl

/-- At a word, the statements of a line are read, and those behind it. -/
theorem statements_of_isWord (h : (ts.headD endToken).kind.isWord = true) (n : Nat) :
    (statements (n + 1)).run ts =
      (do
        let line ← statementLine n
        return line ++ (← statements n) : Rule (List Stmt)).run ts := by
  rw [statements, run_bind_of_ok (run_peek ts)]
  revert h
  cases (ts.headD endToken).kind <;> first | exact fun _ => rfl | exact fun h => absurd h (by decide)

/-- **Lines of statements are read.** -/
theorem statements_complete {stmts : List Stmt} {words : List Spelling} (h : Lines stmts words) :
    ∀ {n : Nat} {ts : List Token}, ts.map Token.spelling = words → 20 * ts.length ≤ n →
      ∃ rest, (statements n).run ts = .ok (stmts, rest) := by
  induction h with
  | done =>
    intro n ts hts hn
    obtain ⟨t, ts, rfl, ht, -⟩ := List.map_eq_cons_iff.1 hts
    obtain ⟨n, rfl⟩ : ∃ k, n = k + 1 := ⟨n - 1, by rw [List.length_cons] at hn; omega⟩
    have hkind : t.kind = .endMarker := (Prod.ext_iff.1 ht).1
    rw [statements, run_bind_of_ok (run_peek_cons t ts), hkind]
    exact ⟨_, rfl⟩
  | dedent _ ih =>
    intro n ts hts hn
    obtain ⟨t, ts, rfl, ht, hts⟩ := List.map_eq_cons_iff.1 hts
    rw [List.length_cons] at hn
    obtain ⟨n, rfl⟩ : ∃ k, n = k + 1 := ⟨n - 1, by omega⟩
    have hkind : t.kind = .dedent := (Prod.ext_iff.1 ht).1
    rw [statements, run_bind_of_ok (run_peek_cons t ts), hkind]
    dsimp only
    rw [run_bind_of_ok (run_advance_cons t ts)]
    exact ih hts (by omega)
  | @line line stmts words feed hne hline hlines ih =>
    intro n ts hts hn
    obtain ⟨s, line, rfl⟩ := List.exists_cons_of_ne_nil hne
    obtain ⟨ls, t, rs, rfl, hls, ht, hrs⟩ := tokens_around hts
    rw [List.forall_mem_cons] at hline
    rw [lineWords_cons] at hls
    obtain ⟨ss, ms, rfl, hss, hms⟩ := List.map_eq_append_iff.1 hls
    simp only [List.length_append, List.length_cons] at hn
    obtain ⟨n, rfl⟩ : ∃ k, n = k + 2 := ⟨n - 2, by omega⟩
    have hkind : t.spelling.1 = .newline := by rw [ht]
    obtain ⟨t', rest', hfollow, ht'⟩ := follower_of_line rs hms hkind
    have hstatement : (statement (n + 1)).run (ss ++ (ms ++ t :: rs)) = .ok (s, ms ++ t :: rs) := by
      rw [hfollow]
      exact statement_complete hline.1 hss ht' (by omega)
    have hends : endsStatement t = true := by
      rw [endsStatement, show t.kind = .newline from hkind]
      rfl
    have hwhole : (statementLine (n + 1)).run (ss ++ (ms ++ t :: rs)) = .ok (s :: line, t :: rs) := by
      rw [statementLine, run_bind_of_ok hstatement,
        run_bind_of_ok (moreStatements_complete hline.2 hkind hms (by omega)),
        run_bind_of_ok (run_peek_cons t rs), hends]
      rfl
    obtain ⟨rest, hrest⟩ := ih hrs (show 20 * rs.length ≤ n by omega)
    have hbegins : ((ss ++ ms ++ t :: rs).headD endToken).kind.isWord = true := by
      obtain ⟨u, us, rfl, hu⟩ := hline.1.tokens hss
      exact hu
    have hnewline : (statements (n + 1)).run (t :: rs) = .ok (stmts, rest) := by
      rw [statements, run_bind_of_ok (run_peek_cons t rs), show t.kind = .newline from hkind]
      dsimp only
      rw [run_bind_of_ok (run_advance_cons t rs)]
      exact hrest
    rw [statements_of_isWord hbegins, List.append_assoc, run_bind_of_ok hwhole, run_bind_of_ok hnewline]
    exact ⟨_, rfl⟩

end Parser

end Quasiquote.Host
