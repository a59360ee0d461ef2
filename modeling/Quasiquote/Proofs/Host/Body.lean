import Quasiquote.Proofs.Host.Brackets
import Quasiquote.Proofs.Host.Sound
import Quasiquote.Proofs.Source.Nesting
import Quasiquote.Proofs.Source.Wrapped

/-!
# The bodies of expression sites

The body of an expression site is read between parentheses on lines of their own. What is read is the
sentence that these parentheses and the body's own words make up. The body itself is a sentence as long as
it closes no bracket that it has not opened; one such as `1) + (2` closes the parenthesis before it.

A body that is read need not have words of its own: `1 \` cannot be read to its end, but on a line of its
own the backslash joins that line to the closing parenthesis.

## Main Definitions

* `Host.ownWords?` — the words of a body by itself
* `Host.wrappedWords` — the words of a body on lines of its own

## Main Statements

* `Host.parseExpression_words` — the body's words and the parentheses around them are what is read
* `Host.parseExpression_sentence` — when the body itself is the expression that is read
-/

namespace Quasiquote.Host

/-- **The words of a body by itself,** where line breaks end no logical line. There are none if the body
cannot be read to its end. -/
def ownWords? (body : String) : Option (List Spelling) :=
  match (Lexer.inBracket body.toList).run with
  | (tokens, none) => some (Token.words tokens)
  | (_, some _) => none

/-- The words of a body on lines of its own, that is, with the line feed that is put behind it, as far as it
can be read. -/
def wrappedWords (body : String) : List Spelling :=
  Token.words (Lexer.inBracket (body.toList ++ ['\n'])).run.1

/-- The line feed behind a body adds no word to its own. -/
theorem wrappedWords_eq {body : String} {words : List Spelling} (h : ownWords? body = some words) :
    wrappedWords body = words := by
  unfold ownWords? at h
  split at h
  · next tokens hrun =>
    cases h
    have hsame := Lexer.words_append_feed (show (Lexer.inBracket body.toList).run.2 = none by rw [hrun])
      [] .origin
    rw [hrun] at hsame
    exact hsame.symm
  · cases h

namespace Parser

variable {ts rest tokens : List Token} {n : Nat} {e : Expr}

/-! ### Whole expressions -/

theorem words_append (first second : List Token) :
    Token.words (first ++ second) = Token.words first ++ Token.words second := by
  rw [Token.words, List.map_append, List.filter_append]
  rfl

/-- Comments and line breaks are no words. -/
theorem words_significant (tokens : List Token) :
    Token.words (significant tokens) = Token.words tokens := by
  induction tokens with
  | nil => rfl
  | cons t tokens ih =>
    rw [significant, List.filter_cons]
    split
    · rw [Lexer.words_cons, Lexer.words_cons, ← ih]
      rfl
    · next hdropped =>
      have hword : t.kind.isWord = false := by
        cases hk : t.kind <;> simp_all [Token.Kind.isWord]
      rw [Lexer.words_cons, hword]
      exact ih

/-- A token that is passed over is the next one, unless it may be missing. -/
theorem accept_eq_ok {p : Token → Bool} {found : Bool} (h : (accept p).run ts = .ok (found, rest)) :
    (found = true ∧ p (ts.headD endToken) = true ∧ rest = ts.tail) ∨ (found = false ∧ rest = ts) := by
  rw [run_accept] at h
  split at h
  · next hp =>
    cases h
    exact .inl ⟨rfl, hp, rfl⟩
  · cases h
    exact .inr ⟨rfl, rfl⟩

theorem skipNewlines_eq_ok {u : Unit} (h : (skipNewlines n).run ts = .ok (u, rest)) :
    rest <:+ ts ∧ Token.words rest = Token.words ts := by
  induction n generalizing ts with
  | zero =>
    obtain ⟨-, rfl⟩ := run_pure_eq_ok h
    exact ⟨List.suffix_rfl, rfl⟩
  | succ n ih =>
    rw [skipNewlines, run_bind_eq_ok_iff] at h
    obtain ⟨found, mid, hfound, h⟩ := h
    rcases accept_eq_ok hfound with ⟨rfl, hnewline, rfl⟩ | ⟨rfl, rfl⟩
    · obtain ⟨hsuffix, hwords⟩ := ih h
      cases ts with
      | nil => cases hnewline
      | cons t ts =>
        refine ⟨hsuffix.trans (List.suffix_cons t ts), ?_⟩
        have hkind : t.kind = .newline := eq_of_beq hnewline
        rw [hwords, Lexer.words_cons, hkind]
        rfl
    · obtain ⟨-, rfl⟩ := run_pure_eq_ok h
      exact ⟨List.suffix_rfl, rfl⟩

/-- A whole expression is a sentence, behind which nothing is left but ends of lines and the end. -/
theorem wholeExpression_eq_ok (h : (wholeExpression n).run ts = .ok (e, rest)) :
    ∃ used later last, ts = used ++ later ∧ Sentence (used.map Token.spelling) e ∧
      last <:+ later ∧ Token.words last = Token.words later ∧
        (last.headD endToken).kind = .endMarker := by
  rw [wholeExpression, run_bind_eq_ok_iff] at h
  obtain ⟨found, mid, hfound, h⟩ := h
  obtain ⟨used, rfl, hused⟩ := (sound n).expr hfound
  rw [run_bind_eq_ok_iff] at h
  obtain ⟨u, last, hskip, h⟩ := h
  obtain ⟨hsuffix, hwords⟩ := skipNewlines_eq_ok hskip
  rw [run_bind_eq_ok_iff] at h
  obtain ⟨ended, mid', hend, h⟩ := h
  rcases accept_eq_ok hend with ⟨rfl, hmarker, -⟩ | ⟨rfl, -⟩
  · obtain ⟨rfl, -⟩ := run_pure_eq_ok h
    exact ⟨used, mid, last, rfl, hused, hsuffix, hwords, eq_of_beq hmarker⟩
  · exact absurd h stopHere_ne_ok

/-- Behind the end marker of a text there are no words. -/
theorem words_of_endMarker {front : List Token} {last : Token}
    (hfront : ∀ t ∈ front, t.kind ≠ .endMarker) (hlast : last.kind = .endMarker)
    (hsuffix : ts <:+ front ++ [last]) (hend : (ts.headD endToken).kind = .endMarker) :
    Token.words ts = [] := by
  rcases List.suffix_concat_iff.1 hsuffix with rfl | ⟨more, rfl, hmore⟩
  · rfl
  · cases more with
    | nil =>
      rw [List.nil_append, Lexer.words_cons, hlast]
      rfl
    | cons t more => exact absurd hend (hfront t (hmore.mem List.mem_cons_self))

/-- Reading a whole source succeeds if the rule does, on the tokens that matter. -/
theorem parse_eq_ok {α : Type} {source : String} {added : Nat} {rule : Nat → Rule α} {found : α}
    (h : parse source added rule = .ok found) :
    ∃ tokens rest, tokenize source = .ok tokens ∧
      (rule (depthFor (significant tokens))).run (significant tokens) = .ok (found, rest) := by
  unfold parse at h
  split at h
  · cases h
  · next tokens htokens =>
    split at h
    · next rest hrun =>
      cases h
      exact ⟨tokens, rest, htokens, hrun⟩
    · cases h

end Parser

/-- **What is read as the body of an expression site** are its words between parentheses. -/
theorem parseExpression_words {body : String} {e : Expr} (h : parseExpression body = .ok e) :
    Sentence (sign "(" :: (wrappedWords body ++ [sign ")"])) e := by
  obtain ⟨tokens, rest, htokens, hrun⟩ := Parser.parse_eq_ok h
  obtain ⟨used, later, stop, hused, hsentence, hsuffix, hwords, hend⟩ :=
    Parser.wholeExpression_eq_ok hrun
  have hall := Lexer.run_of_tokenize htokens
  have hsource : Lexer.ofSource ("(\n" ++ body ++ "\n)") =
      Lexer.ofChars ('(' :: '\n' :: (body.toList ++ ['\n', ')'])) := by
    simp [Lexer.ofSource, stripMark, byteOrderMark]
  -- the words of all tokens are the words that were read
  have hnone : Token.words stop = [] := by
    obtain ⟨front, last, hsplit, hlast, hfront⟩ := (paired_tokenize htokens).endMarker
    have hsignificant : Parser.significant tokens = Parser.significant front ++ [last] := by
      rw [Parser.significant, hsplit, List.filter_append, Parser.significant, List.filter_singleton,
        hlast]
      rfl
    have hstop : stop <:+ Parser.significant front ++ [last] := by
      rw [← hsignificant, hused]
      exact hsuffix.trans (List.suffix_append used later)
    exact Parser.words_of_endMarker (fun t ht => hfront t (List.mem_of_mem_filter ht)) hlast hstop hend
  have hread : Token.words tokens = used.map Token.spelling := by
    rw [← Parser.words_significant, hused, Parser.words_append, ← hwords, hnone, List.append_nil]
    exact List.filter_eq_self.2 hsentence.balanced.isWord
  have hwrapped := Lexer.words_wrapped body.toList hsource (by rw [hall])
  rw [hall, hread] at hwrapped
  exact hwrapped ▸ hsentence

/-- **When the body itself is the expression that is read:** it has words of its own, and they close no
bracket that they have not opened. All that is known otherwise is that its words make up the expression
together with the parentheses around them. -/
theorem parseExpression_sentence {body : String} {e : Expr} (h : parseExpression body = .ok e) :
    (∀ words, ownWords? body = some words → Sentence (sign "(" :: (words ++ [sign ")"])) e) ∧
      ((∃ words, ownWords? body = some words ∧ Sentence words e) ↔
        ∃ words, ownWords? body = some words ∧ Enclosed words) := by
  have hparenthesized {words : List Spelling} (hwords : ownWords? body = some words) :
      Sentence (sign "(" :: (words ++ [sign ")"])) e :=
    wrappedWords_eq hwords ▸ parseExpression_words h
  refine ⟨fun words => hparenthesized, exists_congr fun words => and_congr_right fun hwords => ?_⟩
  exact sentence_iff_enclosed (hparenthesized hwords)

/-- A body whose brackets are those around it. -/
def brokenBody : String := "1) + (2"

/-- The sum of one and two. -/
def oneAndTwo : Expr := .binary .add (.const (.int 1)) (.const (.int 2))

theorem parseExpression_brokenBody : parseExpression brokenBody = .ok oneAndTwo := by
  have hread : (match parseExpression brokenBody with
      | .ok (.binary .add (.const (.int a)) (.const (.int b))) => decide (a = 1 ∧ b = 2)
      | _ => false) = true := by decide +kernel
  split at hread
  · next a b heq =>
    obtain ⟨rfl, rfl⟩ := of_decide_eq_true hread
    exact heq
  · cases hread

theorem ownWords?_brokenBody : ownWords? brokenBody =
    some [(.number, "1"), sign ")", sign "+", sign "(", (.number, "2")] := by decide +kernel

/-- A body whose last line is joined to the line of the closing parenthesis. -/
def joinedBody : String := "1 \\"

/-- The one body is read, and is no sentence by itself; the other is read without words of its own. -/
theorem brokenBody_sentence :
    (parseExpression brokenBody = .ok oneAndTwo ∧ ∃ words, ownWords? brokenBody = some words ∧
      Sentence (sign "(" :: (words ++ [sign ")"])) oneAndTwo ∧ ¬ Sentence words oneAndTwo) ∧
      (∃ e, parseExpression joinedBody = .ok e) ∧ ownWords? joinedBody = none := by
  obtain ⟨hread, hiff⟩ := parseExpression_sentence parseExpression_brokenBody
  refine ⟨⟨parseExpression_brokenBody, _, ownWords?_brokenBody, hread _ ownWords?_brokenBody, ?_⟩, ?_,
    by decide +kernel⟩
  · intro hsentence
    obtain ⟨words, hwords, henclosed⟩ := hiff.1 ⟨_, ownWords?_brokenBody, hsentence⟩
    cases hwords.symm.trans ownWords?_brokenBody
    revert henclosed
    decide +kernel
  · have hread : (parseExpression joinedBody).toOption.isSome = true := by decide +kernel
    cases hbody : parseExpression joinedBody with
    | error message =>
      rw [hbody] at hread
      cases hread
    | ok e => exact ⟨e, rfl⟩

end Quasiquote.Host
