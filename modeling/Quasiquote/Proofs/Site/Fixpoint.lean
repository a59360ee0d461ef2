import Mathlib.Data.List.Chain
import Quasiquote.Proofs.Site.Tokens

/-!
# A rewritten source has no sites

A site begins where a marker stands directly behind a bracket or the word `with`. No call holds a
marker or ends in such a word, and the host tokens of a source hold no such pair outside its sites,
so that nothing is left to be rewritten.

## Main Definitions

* `Quiet` — words among which no marker stands behind one that opens a site

## Main Statements

* `Lexer.Reads.quiet` — the words of a source whose sites are replaced are quiet
* `transform_idempotent` — what has been rewritten once stays as it is
-/

namespace Quasiquote

open Scan

/-! ### Quiet words -/

/-- Whether a marker behind a word begins a site. -/
def opensSite (word : Spelling) : Bool := word == (.name, "with") || word == (.operator, "[")

theorem opensSite_spelling (t : Token) : opensSite t.spelling = t.opensSite := by
  rfl

/-- **No marker stands behind a word that opens a site.** -/
def Quiet (words : List Spelling) : Prop :=
  words.IsChain fun first second => opensSite first = true → second.1 ≠ .marker

/-- Words without a marker are quiet, and stay so in front of quiet words if the last of them opens
no site. -/
theorem Quiet.prepend {front words : List Spelling} (hfront : ∀ word ∈ front, word.1 ≠ .marker)
    (hlast : ∀ word ∈ front.getLast?, opensSite word = false) (h : Quiet words) :
    Quiet (front ++ words) := by
  induction front with
  | nil => exact h
  | cons word front ih =>
    have hinner : Quiet (front ++ words) := by
      refine ih (fun w hw => hfront w (List.mem_cons_of_mem word hw)) fun w hw => hlast w ?_
      rw [List.getLast?_cons, Option.mem_def.1 hw]
      rfl
    refine List.IsChain.cons hinner fun next hnext hopens => ?_
    cases front with
    | nil =>
      have := hlast word rfl
      rw [hopens] at this
      simp at this
    | cons w front =>
      cases hnext
      exact hfront _ (by simp)

namespace Site

variable {s : Site}

theorem frontWords_ne_marker : ∀ word ∈ s.frontWords, word.1 ≠ .marker := by
  simp [frontWords, methodWords]

theorem numberFront_ne_marker (number name : List Char) :
    ∀ word ∈ s.numberFront number name, word.1 ≠ .marker := by
  unfold numberFront
  split <;> simp [methodWords]

theorem lostFront_ne_marker : ∀ word ∈ s.lostFront, word.1 ≠ .marker := by
  unfold lostFront
  split
  · simp [methodWords]
  split
  · exact numberFront_ne_marker _ _
  · simp [methodWords]

theorem gluedFront_ne_marker (t : Token) : ∀ word ∈ s.gluedFront t, word.1 ≠ .marker := by
  unfold gluedFront
  split
  · simp [methodWords]
  · exact numberFront_ne_marker _ _
  · intro word hword
    rcases List.mem_append.1 hword with hmem | hmem
    · obtain ⟨c, -, rfl⟩ := List.mem_map.1 hmem
      simp
    · exact frontWords_ne_marker word hmem

/-- A call ends in its closing parenthesis and line breaks. -/
theorem closingWords_plain : ∀ word ∈ s.closingWords, word.1 ≠ .marker ∧ opensSite word = false := by
  have hmark : ((.operator, ")") : Spelling).1 ≠ .marker ∧ opensSite (.operator, ")") = false := by
    decide
  have hbreak : ((.lineBreak, "\n") : Spelling).1 ≠ .marker ∧ opensSite (.lineBreak, "\n") = false := by
    decide
  intro word hword
  unfold closingWords at hword
  split at hword
  · rcases List.mem_cons.1 hword with rfl | hmem
    · exact hmark
    · cases hn : s.newlines with
      | zero => simp [hn, breakWords] at hmem
      | succ n =>
        rw [hn, breakWords] at hmem
        rcases List.mem_cons.1 hmem with rfl | hmem
        · decide
        · rw [List.eq_of_mem_replicate hmem]
          exact hbreak
  · rcases List.mem_append.1 hword with hmem | hmem
    · rw [List.eq_of_mem_replicate hmem]
      exact hbreak
    · rw [List.mem_singleton.1 hmem]
      exact hmark

theorem closingWords_ne_nil (s : Site) : s.closingWords ≠ [] := by
  unfold closingWords
  split <;> simp

/-- A call is quiet whatever its front comes to. -/
theorem quiet_call {front words : List Spelling} (hfront : ∀ word ∈ front, word.1 ≠ .marker)
    (h : Quiet words) : Quiet (front ++ (s.tailWords ++ words)) := by
  have harguments : ∀ word ∈ s.argumentWords, word.1 ≠ .marker := by simp [argumentWords]
  -- only the last word counts: no word of a call is a marker
  rw [tailWords, ← List.append_assoc, ← List.append_assoc]
  refine .prepend (fun word hword => ?_) (fun word hword => ?_) h
  · rcases List.mem_append.1 hword with hmem | hmem
    · rcases List.mem_append.1 hmem with hmem | hmem
      · exact hfront word hmem
      · exact harguments word hmem
    · exact (closingWords_plain word hmem).1
  · rw [List.getLast?_append_of_ne_nil _ s.closingWords_ne_nil] at hword
    exact (closingWords_plain word (List.mem_of_getLast? hword)).2

end Site

/-! ### Reading quiet words -/

namespace Lexer

/-- Where the words begin with a marker, the reader is at it. -/
theorem Reads.atMarker {lx : Lexer} {found : List Piece} (h : lx.Reads found)
    {word : Spelling} (hword : word ∈ (respelled found).head?) (hk : word.1 = .marker) :
    lx.AtMarker := by
  cases h with
  | @last _ rest t hnext _ => exact ⟨t, rest, hnext, by cases hword; exact hk⟩
  | @token _ rest t found hnext _ _ _ =>
    refine ⟨t, rest, hnext, ?_⟩
    rcases respelled_cases t found with ⟨s, later, rfl, -, heq⟩ | heq
    · obtain ⟨first, front, hfront⟩ := List.exists_cons_of_ne_nil (s.gluedFront_ne_nil t)
      rw [heq, hfront] at hword
      cases hword
      exact absurd hk (Site.gluedFront_ne_marker t word (hfront ▸ List.mem_cons_self))
    · rw [heq] at hword
      cases hword
      exact hk
  | @site _ _ _ _ _ _ s _ _ _ _ _ _ _ =>
    rw [respelled_site] at hword
    cases hword
    simp at hk

/-- **The words of a source whose sites are replaced are quiet.** -/
theorem Reads.quiet {lx : Lexer} {found : List Piece} (h : lx.Reads found) :
    Quiet (respelled found) := by
  induction h with
  | last => exact .singleton _
  | @token lx rest t found hnext _ hplain hrest ih =>
    rcases respelled_cases t found with ⟨s, later, rfl, -, heq⟩ | heq
    · rw [respelled_site] at ih
      rw [heq]
      exact Site.quiet_call (Site.gluedFront_ne_marker t) (List.IsChain.right_of_append ih)
    · rw [heq]
      refine List.IsChain.cons ih fun word hword hopens hk => hplain ⟨?_, hrest.atMarker hword hk⟩
      rwa [opensSite_spelling] at hopens
  | site _ _ _ _ _ _ ih =>
    rw [respelled_site, Site.callWords, List.append_assoc]
    exact Site.quiet_call Site.frontWords_ne_marker ih

/-- A reader of quiet words finds no site. -/
theorem reads_of_run {lx : Lexer} (h : lx.run.2 = none)
    (hquiet : Quiet (lx.run.1.map Token.spelling)) : lx.Reads (lx.run.1.map Piece.token) := by
  fun_induction run lx with
  | case1 => simp at h
  | case2 lx t rest hnext hk => exact .last hnext hk
  | case3 lx t rest hnext hk later ih =>
    -- a site would need a marker behind this token
    refine .token hnext hk ?_ (ih h (List.IsChain.tail hquiet))
    rintro ⟨hopens, marker, behind, hmarker, hkind⟩
    have hrun : later.1 = marker :: behind.run.1 := by
      rw [show later = rest.run from rfl, run_of_next hmarker (by simp [hkind])]
    rw [List.map_cons, hrun, List.map_cons] at hquiet
    exact List.IsChain.rel_head? hquiet rfl hopens hkind

end Lexer

theorem rewrittenWords_quiet {source : String} {found : List Piece} (h : pieces source = .ok found) :
    Quiet (rewrittenWords source found) := by
  have hquiet := (Lexer.reads_of_pieces h).quiet
  rcases rewrittenWords_cases source found with ⟨s, later, rfl, -, heq⟩ | ⟨-, heq⟩
  · rw [respelled_site] at hquiet
    rw [heq]
    exact Site.quiet_call Site.lostFront_ne_marker (List.IsChain.right_of_append hquiet)
  · rw [heq]
    exact hquiet

/-- A source whose tokens are quiet has nothing to rewrite. -/
theorem transform_of_quiet {source : String} {tokens : List Token}
    (h : tokenize source = .ok tokens) (hquiet : Quiet (tokens.map Token.spelling)) :
    transform source = .ok ⟨source, []⟩ := by
  have hrun : (Lexer.ofSource source).run = (tokens, none) := by
    unfold tokenize at h
    split at h
    · next heq =>
      cases h
      exact heq
    · simp at h
  have hreads : (Lexer.ofSource source).Reads (tokens.map Piece.token) := by
    have hall := @Lexer.reads_of_run (Lexer.ofSource source)
    rw [hrun] at hall
    exact hall rfl hquiet
  have hnone : (tokens.map Piece.token).filterMap Piece.site? = [] := by
    rw [List.filterMap_map]
    exact List.filterMap_eq_nil_iff.2 fun _ _ => rfl
  rw [transform, findSites, pieces, hreads.pieces]
  simp only [Except.map, hnone, List.map_nil, splice_nil, String.ofList_toList]

/-- What has no sites is not rewritten, whether it opts in or not. -/
theorem transformSource_of_transform {source : String}
    (h : transform source = .ok ⟨source, []⟩) : transformSource source = .ok none := by
  unfold transformSource
  split
  · rw [h]
    rfl
  · rfl

/-- **What has been rewritten once stays as it is:** it has no sites any more, and as a source that
may opt in it is left alone. -/
theorem transform_idempotent (source : String) :
    (∀ out, transform source = .ok out → transform out.source = .ok ⟨out.source, []⟩) ∧
      ∀ rewritten, transformSource source = .ok rewritten →
        transformSource (rewritten.getD source) = .ok none := by
  have hagain (out : Transformed) (h : transform source = .ok out) :
      transform out.source = .ok ⟨out.source, []⟩ := by
    obtain ⟨found, tokens, hfound, htokens, hwords⟩ := tokenize_transform h
    exact transform_of_quiet htokens (hwords ▸ rewrittenWords_quiet hfound)
  refine ⟨hagain, fun rewritten h => ?_⟩
  cases rewritten with
  | none => exact h
  | some text =>
    unfold transformSource at h
    split at h
    · obtain ⟨out, hout, hsome⟩ := map_eq_ok h
      split at hsome
      · simp at hsome
      · cases hsome
        exact transformSource_of_transform (hagain out hout)
    · simp at h

/-- A source that opts in, with a site inside a body and a marker behind the outer one. -/
def optedSource : String := "# coding: quasiquotes\nx = [$q|[$r||]$\n"

theorem optedSource_idempotent :
    ∃ out, transform optedSource = .ok out ∧ out.sites.length = 1 ∧
      transform out.source = .ok ⟨out.source, []⟩ ∧
      transformSource optedSource = .ok (some out.source) ∧
      transformSource out.source = .ok none := by
  have htransform : transform optedSource = .ok
      { source := "# coding: quasiquotes\nx = q.quote_expr(\"[$r|\", current_execution_context(), 4)$\n"
        sites := [{
          kind := .expression, quoter := "q", body := "[$r|", column := 4, line := 2,
          bodyLine := 2, sourceLine := "x = [$q|[$r||]$", start := 26, stop := 36, newlines := 0 }] } := by
    decide +kernel
  have hsource : transformSource optedSource = .ok
      (some "# coding: quasiquotes\nx = q.quote_expr(\"[$r|\", current_execution_context(), 4)$\n") := by
    decide +kernel
  obtain ⟨hagain, hagainSource⟩ := transform_idempotent optedSource
  exact ⟨_, htransform, rfl, hagain _ htransform, hsource, hagainSource _ hsource⟩

end Quasiquote
