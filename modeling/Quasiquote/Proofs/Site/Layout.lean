import Quasiquote.Proofs.Site.Recognition
import Quasiquote.Site.Rewriting

/-!
# Where the text of a rewritten source stands

A rewritten source is the source with some stretches replaced, and all other text stays where it
is, line by line.

## Main Definitions

* `Rewriting` — a text, the stretches of it that are replaced, and what it becomes
* `Kept` — a position at which a text and its replacement hold the same character
* `Layout` — what a rewritten source has in common with its source

## Main Statements

* `Lexer.Reads.rewriting` — the pieces of a source say which stretches of it are replaced
* `transform_layout` — a rewritten source keeps its layout

## Design Notes

A call has the line breaks of its stretch, so lines agree everywhere. Columns agree until a line
holds a part of a stretch; a stretch that ends in a line break makes columns agree again, as its
call does so too.
-/

namespace Quasiquote

open Scan

/-! ### Replacing stretches -/

/-- **A text with stretches replaced.** The text begins at a byte offset. A site's stretch lies
between the site's offsets, and its call has the same line breaks. -/
inductive Rewriting : Nat → List Char → List Site → List Char → Prop
  | done (offset : Nat) (text : List Char) : Rewriting offset text [] text
  | site {offset : Nat} {host span text : List Char} {s : Site} {sites : List Site}
      {out : List Char} : s.start = offset + byteLength host → s.stop = s.start + byteLength span →
      span ≠ [] → s.callChars.count '\n' = span.count '\n' →
      (span.getLast? = some '\n' → s.callChars.getLast? = some '\n') →
      Rewriting s.stop text sites out →
      Rewriting offset (host ++ (span ++ text)) (s :: sites) (host ++ (s.callChars ++ out))

theorem byteLength_pos {text : List Char} (h : text ≠ []) : 0 < byteLength text := by
  cases text with
  | nil => exact absurd rfl h
  | cons c rest =>
    have := c.utf8Size_pos
    rw [byteLength_cons]
    omega

theorem takeBytes_byteLength (a b : List Char) : takeBytes (byteLength a) (a ++ b) = a := by
  induction a with
  | nil =>
    cases b with
    | nil => rfl
    | cons c b =>
      have := c.utf8Size_pos
      rw [List.nil_append, takeBytes, byteLength_nil, if_neg (by omega)]
  | cons c a ih =>
    rw [List.cons_append, takeBytes, byteLength_cons, if_pos (Nat.le_add_right _ _),
      Nat.add_sub_cancel_left, ih]

theorem dropBytes_byteLength (a b : List Char) : dropBytes (byteLength a) (a ++ b) = b := by
  have hall := takeBytes_append_dropBytes (byteLength a) (a ++ b)
  rw [takeBytes_byteLength] at hall
  exact List.append_cancel_left hall

namespace Rewriting

variable {offset : Nat} {text out : List Char} {sites : List Site}

/-- Replacing stretches is what `splice` does. -/
theorem splice_eq (h : Rewriting offset text sites out) : splice offset text sites = out := by
  induction h with
  | done => rfl
  | @site offset host span text s sites out hstart hstop _ _ _ _ ih =>
    have htake : s.start - offset = byteLength host := by omega
    have hdrop : s.stop - offset = byteLength (host ++ span) := by
      rw [byteLength_append]
      omega
    rw [splice, htake, hdrop, takeBytes_byteLength, ← List.append_assoc host span,
      dropBytes_byteLength, ih, List.append_assoc]

/-- Text in front of all stretches stays. -/
theorem prepend (a : List Char) (h : Rewriting (offset + byteLength a) text sites out) :
    Rewriting offset (a ++ text) sites (a ++ out) := by
  cases h with
  | done => exact .done _ _
  | @site _ host span text s sites out hstart hstop hne hcount hlast h =>
    rw [← List.append_assoc a, ← List.append_assoc a]
    refine .site ?_ hstop hne hcount hlast h
    rw [byteLength_append]
    omega

theorem shift (bytes : Nat) (h : Rewriting offset text sites out) :
    Rewriting (offset + bytes) text (sites.map (Site.shift · bytes)) out := by
  induction h with
  | done => exact .done _ _
  | @site offset host span text s sites out hstart hstop hne hcount hlast _ ih =>
    have hcall : (s.shift bytes).callChars = s.callChars := rfl
    rw [List.map_cons, ← hcall]
    refine .site ?_ ?_ hne hcount hlast ih
    · show s.start + bytes = _
      omega
    · show s.stop + bytes = s.start + bytes + _
      omega

/-- The stretches lie in the text, one behind the other. -/
theorem bounds (h : Rewriting offset text sites out) :
    ∀ s ∈ sites, offset ≤ s.start ∧ s.start < s.stop ∧ s.stop ≤ offset + byteLength text := by
  induction h with
  | done => simp
  | @site offset host span text s sites out hstart hstop hne _ _ _ ih =>
    have hpos := byteLength_pos hne
    intro s' hs'
    rw [byteLength_append, byteLength_append]
    rcases List.mem_cons.1 hs' with rfl | hmem
    · omega
    · have := ih s' hmem
      omega

theorem ordered (h : Rewriting offset text sites out) :
    sites.Pairwise fun s s' => s.stop ≤ s'.start := by
  induction h with
  | done => exact .nil
  | site _ _ _ _ _ h ih => exact .cons (fun s' hs' => (h.bounds s' hs').1) ih

end Rewriting

/-! ### Lines and columns -/

namespace Position

/-- Two places that read the same text get the same column, if they have it already or the text
holds a line feed. -/
theorem across_column {p q : Position} {text : List Char}
    (h : (p.across text).line = p.line → p.column = q.column) :
    (q.across text).column = (p.across text).column := by
  induction text generalizing p q with
  | nil => exact (h rfl).symm
  | cons c rest ih =>
    rw [across_cons, across_cons]
    apply ih
    intro hline
    -- behind a line feed the columns agree, before it they have to agree already
    by_cases hc : c = '\n'
    · simp [past, hc]
    · have hpast : (p.past c).line = p.line := by simp [past, hc]
      have hsame : p.column = q.column := by
        apply h
        rw [across_cons, hline, hpast]
      simp [past, hc, hsame]

/-- Behind a line feed, the column is zero. -/
theorem across_feed (p : Position) (text : List Char) :
    (p.across (text ++ ['\n'])).column = 0 := by
  rw [across_append]
  rfl

end Position

/-- Whether a byte lies within a stretch that is replaced. -/
def Within (sites : List Site) (offset : Nat) : Prop :=
  ∃ s ∈ sites, s.start ≤ offset ∧ offset < s.stop

/-- No byte of a stretch stands before a place on its line. The place lies behind `before`, and
`before` begins at the position `p` and the byte `offset`. -/
def Untouched (p : Position) (offset : Nat) (sites : List Site) (before : List Char) : Prop :=
  ∀ b d b', before = b ++ d :: b' → Within sites (offset + byteLength b) →
    (p.across b).line ≠ (p.across before).line

/-- A character of a text in two parts stands in the one or in the other. -/
theorem append_eq_append_cons {α : Type} {a b before after : List α} {c : α}
    (h : a ++ b = before ++ c :: after) :
    (∃ x, before = a ++ x ∧ b = x ++ c :: after) ∨ (∃ y, a = before ++ c :: y ∧ after = y ++ b) := by
  rcases List.append_eq_append_iff.1 h with ⟨x, hbefore, hb⟩ | ⟨y, ha, hafter⟩
  · exact .inl ⟨x, hbefore, hb⟩
  · cases y with
    | nil => exact .inl ⟨[], by simpa using ha.symm, hafter.symm⟩
    | cons d y =>
      injection hafter with hcd hrest
      exact .inr ⟨y, by rw [hcd]; exact ha, hrest⟩

/-- Where a stretch is replaced, a place behind it that no stretch touches has its column from the
line feed at the end of the stretch. -/
theorem column_behind {p q : Position} {offset : Nat} {host span before : List Char} {s : Site}
    {sites : List Site} (hs : s ∈ sites) (hstart : s.start = offset + byteLength host)
    (hstop : s.stop = s.start + byteLength span) (hne : span ≠ [])
    (hlast : span.getLast? = some '\n' → s.callChars.getLast? = some '\n')
    (huntouched : Untouched p offset sites (host ++ (span ++ before)))
    (hline : (p.across (host ++ (span ++ before))).line = (p.across (host ++ span)).line) :
    (p.across (host ++ span)).column = (q.across (host ++ s.callChars)).column := by
  obtain ⟨a, d, rfl⟩ : ∃ a d, span = a ++ [d] :=
    ⟨span.dropLast, span.getLast hne, (List.dropLast_concat_getLast hne).symm⟩
  by_cases hd : d = '\n'
  · subst hd
    obtain ⟨call, hcall⟩ := List.getLast?_eq_some_iff.1 (hlast (by simp))
    rw [hcall, ← List.append_assoc, ← List.append_assoc, Position.across_feed,
      Position.across_feed]
  · -- otherwise `d` is a character of the stretch, and stands before the place on its line
    exfalso
    have hwithin : Within sites (offset + byteLength (host ++ a)) := by
      refine ⟨s, hs, ?_, ?_⟩
      · rw [byteLength_append]
        omega
      · have hpos := d.utf8Size_pos
        simp only [byteLength_append, byteLength_cons, byteLength_nil] at hstop ⊢
        omega
    refine huntouched (host ++ a) d before (by simp) hwithin ?_
    rw [hline, ← List.append_assoc, Position.across_append p (host ++ a), Position.across_cons,
      Position.across_nil, Position.past, if_neg hd]

/-- A character behind `before` that is kept in `out`: what precedes it there is what becomes of
`before`. It stays on its line, and in its column where no stretch stands before it. The two texts
begin at the positions `p` and `q`. -/
def Kept (p q : Position) (offset : Nat) (sites : List Site) (before : List Char) (c : Char)
    (out : List Char) : Prop :=
  ∃ before' after', out = before' ++ c :: after' ∧
    Rewriting offset before (sites.filter (·.stop ≤ offset + byteLength before)) before' ∧
    (q.across before').line = (p.across before).line ∧
    (((p.across before).line = p.line → p.column = q.column) →
      Untouched p offset sites before → (q.across before').column = (p.across before).column)

section

variable {p q : Position} {offset : Nat} {host before : List Char} {c : Char} {s : Site}
  {sites : List Site} {out : List Char}

/-- Text in front of all stretches is kept as it is. -/
theorem kept_in_front (hline : q.line = p.line)
    (hsites : ∀ s ∈ sites, ¬ s.stop ≤ offset + byteLength before) (after : List Char) :
    Kept p q offset sites before c (before ++ c :: after) := by
  refine ⟨before, after, rfl, ?_, ?_, fun hcolumn _ => Position.across_column hcolumn⟩
  · have hnone : sites.filter (·.stop ≤ offset + byteLength before) = [] := by
      rw [List.filter_eq_nil_iff]
      intro s hs
      simpa using hsites s hs
    rw [hnone]
    exact .done _ _
  · rw [Position.across_line, Position.across_line, hline]

/-- What is kept behind a stretch is kept by both together. -/
theorem kept_behind {span : List Char}
    (hstart : s.start = offset + byteLength host) (hstop : s.stop = s.start + byteLength span)
    (hne : span ≠ []) (hcount : s.callChars.count '\n' = span.count '\n')
    (hlast : span.getLast? = some '\n' → s.callChars.getLast? = some '\n')
    (h : Kept (p.across (host ++ span)) (q.across (host ++ s.callChars)) s.stop sites before c out) :
    Kept p q offset (s :: sites) (host ++ (span ++ before)) c (host ++ (s.callChars ++ out)) := by
  obtain ⟨before', after', hout, hbefore, hsame, hcolumn⟩ := h
  have hoffset : offset + byteLength (host ++ (span ++ before)) = s.stop + byteLength before := by
    rw [byteLength_append, byteLength_append]
    omega
  have hsplit (p : Position) (x y : List Char) :
      p.across (host ++ (x ++ y)) = (p.across (host ++ x)).across y := by
    rw [← List.append_assoc, Position.across_append]
  refine ⟨host ++ (s.callChars ++ before'), after', ?_, ?_, ?_, fun _ huntouched => ?_⟩
  · rw [hout, List.append_assoc, List.append_assoc]
  · rw [List.filter_cons, if_pos (by rw [hoffset]; simp), hoffset]
    exact .site hstart hstop hne hcount hlast hbefore
  · rw [hsplit, hsplit, hsame]
  · rw [hsplit, hsplit]
    refine hcolumn (fun hend => ?_) fun b d b' hb hin => ?_
    · refine column_behind List.mem_cons_self hstart hstop hne hlast huntouched ?_
      rw [hsplit, hend]
    · -- a stretch before the place on its line would be one before it in the whole text
      have hwhole : host ++ (span ++ before) = host ++ (span ++ b) ++ d :: b' := by
        rw [hb]
        simp
      have hin' : Within (s :: sites) (offset + byteLength (host ++ (span ++ b))) := by
        obtain ⟨s', hs', hin⟩ := hin
        refine ⟨s', List.mem_cons_of_mem s hs', ?_⟩
        rw [byteLength_append, byteLength_append]
        omega
      have hother := huntouched _ d b' hwhole hin'
      rwa [hsplit, hsplit] at hother

end

/-- **What is outside all stretches stays on its line,** and in its column where no stretch stands
before it. -/
theorem Rewriting.kept {offset : Nat} {text out : List Char} {sites : List Site}
    (h : Rewriting offset text sites out) {p q : Position} (hline : q.line = p.line)
    {before : List Char} {c : Char} {after : List Char} (htext : text = before ++ c :: after)
    (houtside : ¬ Within sites (offset + byteLength before)) :
    Kept p q offset sites before c out := by
  induction h generalizing p q before with
  | done offset text => exact htext ▸ kept_in_front hline (by simp) after
  | @site offset host span text s sites out hstart hstop hne hcount hlast h ih =>
    have hpos := byteLength_pos hne
    rcases append_eq_append_cons htext with ⟨a, rfl, ha⟩ | ⟨y, rfl, -⟩
    · rcases append_eq_append_cons ha with ⟨before, rfl, hbefore⟩ | ⟨y, rfl, -⟩
      · -- the place lies behind the stretch
        have hlines : (q.across (host ++ s.callChars)).line = (p.across (host ++ span)).line := by
          rw [Position.across_line, Position.across_line, List.count_append, List.count_append,
            hcount, hline]
        refine kept_behind hstart hstop hne hcount hlast (ih hlines hbefore ?_)
        rintro ⟨s', hs', hin⟩
        refine houtside ⟨s', List.mem_cons_of_mem s hs', ?_⟩
        rw [byteLength_append, byteLength_append]
        omega
      · -- the place lies within the stretch
        exfalso
        apply houtside
        have hpos := c.utf8Size_pos
        simp only [byteLength_append, byteLength_cons] at hstop ⊢
        exact ⟨s, List.mem_cons_self, by omega, by omega⟩
    · -- the place lies before the stretch
      rw [List.append_assoc, List.cons_append]
      refine kept_in_front hline ?_ _
      intro s' hs'
      rw [byteLength_append] at hstart
      rcases List.mem_cons.1 hs' with rfl | hmem
      · omega
      · have := h.bounds s' hmem
        omega

/-! ### Stretches of a source -/

/-- A call has the line breaks of its site. -/
theorem Site.count_callChars {s : Site} (hquoter : isIdentifier s.quoter.toList = true) :
    s.callChars.count '\n' = s.newlines := by
  have hname : '\n' ∉ s.quoter.toList := feed_notMem_of_isIdentifier hquoter
  have hmethod : '\n' ∉ s.kind.method.toList := by
    cases s.kind <;> decide
  have hbody : '\n' ∉ Literal.quoteChars s.body.toList := by
    intro hmem
    have := Literal.oneLine_quoteChars _ _ hmem
    simp [endsLine] at this
  have hcolumn : '\n' ∉ (toString s.column).toList := fun hmem => by
    simpa using isDigit_of_mem_toString _ hmem
  have hcomma : '\n' ∉ ", ".toList := by decide
  have hcontext : '\n' ∉ contextCall.toList := by decide
  have harguments : '\n' ∉ s.argumentChars := by
    simp only [argumentChars, List.mem_append, List.mem_cons, not_or]
    exact ⟨⟨⟨⟨⟨by decide, hbody⟩, hcomma⟩, hcontext⟩, hcomma⟩, hcolumn⟩
  have hclosing : s.closingChars.count '\n' = s.newlines := by
    unfold closingChars
    cases s.kind <;> simp
  rw [callChars_eq, List.count_append, List.count_cons, List.count_append, List.count_append,
    List.count_eq_zero_of_not_mem hname, List.count_eq_zero_of_not_mem harguments,
    List.count_eq_zero_of_not_mem hmethod, hclosing]
  simp

/-- A block's call ends in its line breaks. -/
theorem Site.getLast?_callChars {s : Site} (hkind : s.kind = .block) (hbreaks : 0 < s.newlines) :
    s.callChars.getLast? = some '\n' := by
  obtain ⟨n, hn⟩ : ∃ n, s.newlines = n + 1 := ⟨s.newlines - 1, by omega⟩
  have hlast : s.callChars = s.quoter.toList ++ ('.' :: (s.kind.method.toList ++
      (s.argumentChars ++ (')' :: List.replicate n '\n')))) ++ ['\n'] := by
    rw [callChars_eq, closingChars, hkind, hn, List.replicate_succ']
    simp
  rw [hlast, List.getLast?_concat]

/-- What is replaced behind a token is replaced behind the text before it. -/
theorem Lexer.Moves.rewriting {lx rest : Lexer} {text out : List Char} {sites : List Site}
    (h : lx.Moves text rest) (hout : Rewriting rest.here.offset rest.ahead sites out) :
    Rewriting lx.here.offset lx.ahead sites (text ++ out) := by
  rw [h.ahead]
  refine Rewriting.prepend _ ?_
  rw [← Position.across_offset, ← h.here]
  exact hout

/-- A site adds its own stretch to those behind it. -/
theorem Lexer.Quotes.rewriting {lx rest : Lexer} {s : Site} {gap span out : List Char}
    {sites : List Site} (h : lx.Quotes s gap span rest)
    (hout : Rewriting rest.here.offset rest.ahead sites out) :
    Rewriting lx.here.offset lx.ahead (s :: sites) (gap ++ (s.callChars ++ out)) := by
  rw [h.moves.ahead, List.append_assoc]
  refine .site h.start ?_ ?_ ?_ ?_ (h.stop ▸ hout)
  · rw [h.stop, h.moves.here, Position.across_offset, h.start, byteLength_append, Nat.add_assoc]
  · rintro rfl
    simpa using h.opens
  · rw [Site.count_callChars h.quoter, h.newlines]
  · intro hlast
    have hkind := h.ends hlast
    exact Site.getLast?_callChars hkind (h.block hkind).2

/-- The pieces of a source say which stretches of it are replaced. -/
theorem Lexer.Reads.rewriting {lx : Lexer} {found : List Piece} (h : lx.Reads found) :
    ∃ out, Rewriting lx.here.offset lx.ahead (found.filterMap Piece.site?) out := by
  induction h with
  | @last lx rest t _ _ => exact ⟨lx.ahead, .done _ _⟩
  | token hnext _ _ _ ih =>
    obtain ⟨out, hout⟩ := ih
    obtain ⟨gap, htakes⟩ := takes_next hnext
    exact ⟨_, htakes.moves.rewriting hout⟩
  | site hopener hopens hmarker hkind hsite _ ih =>
    obtain ⟨out, hout⟩ := ih
    obtain ⟨gap, span, hquotes⟩ := quotes_of_site hopener hopens hmarker hkind hsite
    exact ⟨_, hquotes.rewriting hout⟩

theorem Rewriting.stretch {offset : Nat} {text out : List Char} {sites : List Site}
    (h : Rewriting offset text sites out) :
    ∀ s ∈ sites, ∃ before span after, text = before ++ (span ++ after) ∧ span ≠ [] ∧
      s.start = offset + byteLength before ∧ s.stop = s.start + byteLength span ∧
      s.callChars.count '\n' = span.count '\n' := by
  induction h with
  | done => simp
  | @site offset host span text s sites out hstart hstop hne hcount _ _ ih =>
    intro s' hs'
    rcases List.mem_cons.1 hs' with rfl | hmem
    · exact ⟨host, span, text, rfl, hne, hstart, hstop, hcount⟩
    · obtain ⟨before, span', after, htext, hne', hstart', hstop', hcount'⟩ := ih s' hmem
      refine ⟨host ++ (span ++ before), span', after, by rw [htext]; simp, hne', ?_, hstop', hcount'⟩
      rw [byteLength_append, byteLength_append]
      omega

/-- **What a rewritten source has in common with its source.** -/
structure Layout (source : List Char) (sites : List Site) (out : List Char) : Prop where
  /-- A site is a stretch of whole characters, not empty, and its call has the line feeds of the
  stretch. -/
  stretches : ∀ s ∈ sites, ∃ before span after, source = before ++ (span ++ after) ∧ span ≠ [] ∧
    s.start = byteLength before ∧ s.stop = s.start + byteLength span ∧
    s.callChars.count '\n' = span.count '\n'
  /-- The stretches stand one behind the other. -/
  ordered : sites.Pairwise fun s s' => s.stop ≤ s'.start
  /-- The stretches are replaced, and nothing else. -/
  replaced : Rewriting 0 source sites out
  /-- Any other character stays on its line, and in its column where no stretch stands before it on
  the line. -/
  kept : ∀ before c after, source = before ++ c :: after → ¬ Within sites (byteLength before) →
    ∃ before' after', out = before' ++ c :: after' ∧
      Rewriting 0 before (sites.filter (·.stop ≤ byteLength before)) before' ∧
      (Position.origin.across before').line = (Position.origin.across before).line ∧
      (Untouched .origin 0 sites before →
        (Position.origin.across before').column = (Position.origin.across before).column)

theorem Rewriting.layout {source out : List Char} {sites : List Site}
    (h : Rewriting 0 source sites out) : Layout source sites out where
  stretches := by simpa using h.stretch
  ordered := h.ordered
  replaced := h
  kept := by
    intro before c after hsource houtside
    rw [← Nat.zero_add (byteLength before)] at houtside ⊢
    obtain ⟨before', after', hout, hbefore, hline, hcolumn⟩ :=
      h.kept (p := .origin) (q := .origin) rfl hsource houtside
    exact ⟨before', after', hout, hbefore, hline, hcolumn fun _ => rfl⟩

/-- The mark at the beginning of a source. -/
theorem exists_mark (source : List Char) :
    ∃ mark, source = mark ++ stripMark source ∧ byteLength mark = markLength source := by
  cases source with
  | nil => exact ⟨[], rfl, rfl⟩
  | cons c rest =>
    by_cases hc : c = byteOrderMark
    · exact ⟨[c], by rw [stripMark, if_pos hc]; rfl, by rw [markLength, if_pos hc]; rfl⟩
    · exact ⟨[], by rw [stripMark, if_neg hc]; rfl, by rw [markLength, if_neg hc]; rfl⟩

/-- The mark stays where it is, and the stretches are counted from before it. -/
theorem Rewriting.behind_mark {source out : List Char} {sites : List Site}
    (h : Rewriting 0 (stripMark source) sites out) :
    ∃ mark, source = mark ++ stripMark source ∧
      Rewriting 0 source (sites.map (Site.shift · (markLength source))) (mark ++ out) := by
  obtain ⟨mark, hmark, hlength⟩ := exists_mark source
  refine ⟨mark, hmark, ?_⟩
  have hall := (h.shift (byteLength mark)).prepend mark
  rwa [← hmark, hlength] at hall

theorem transform_of_findSites {source : String} {sites : List Site}
    (h : findSites source = .ok sites) :
    ∃ out, transform source = .ok ⟨String.ofList out, sites⟩ ∧
      Rewriting 0 source.toList sites out := by
  obtain ⟨found, hfound, rfl⟩ := map_eq_ok h
  obtain ⟨out, hout⟩ := (Lexer.reads_of_pieces hfound).rewriting
  obtain ⟨mark, -, hall⟩ := Rewriting.behind_mark hout
  exact ⟨mark ++ out, by rw [transform, h, Except.map, hall.splice_eq], hall⟩

/-- **A rewritten source keeps its layout.** -/
theorem transform_layout {source : String} {sites : List Site} (h : findSites source = .ok sites) :
    ∃ out, transform source = .ok ⟨out, sites⟩ ∧ Layout source.toList sites out.toList := by
  obtain ⟨out, htransform, hout⟩ := transform_of_findSites h
  exact ⟨_, htransform, by rw [String.toList_ofList]; exact hout.layout⟩

/-- A source with a byte order mark, a block, and an expression over two lines. -/
def mixedSource : String := "\ufeffwith $q:\n  a\nx = [$\u00e9|\n|] + y\n"

theorem mixedSource_layout :
    ∃ sites, sites.length = 2 ∧ findSites mixedSource = .ok sites ∧
      ∃ out, transform mixedSource = .ok ⟨out, sites⟩ ∧
        Layout mixedSource.toList sites out.toList := by
  have hsites : findSites mixedSource = .ok
      [{ kind := .block, quoter := "q", body := "  a\n", column := 0, line := 1, bodyLine := 2,
         sourceLine := "with $q:", start := 3, stop := 16, newlines := 2 },
       { kind := .expression, quoter := "\u00e9", body := "\n", column := 4, line := 3,
         bodyLine := 3, sourceLine := "x = [$\u00e9|", start := 20, stop := 28, newlines := 1 }] := by
    decide +kernel
  exact ⟨_, rfl, hsites, transform_layout hsites⟩

end Quasiquote
