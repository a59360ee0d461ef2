import Quasiquote.Proofs.Source.ByteView
import Quasiquote.Proofs.Source.Words

/-!
# The tokens of a source

The tokens of a source stand one behind the other, and together with the blanks between them they are
the source.

## Main Definitions

* `Tiles` — a text as tokens with separating text between them
* `Tiling` — what is known of the tokens of a source

## Main Statements

* `Lexer.tiles_run` — the tokens that a reader gives, and the text ahead of it
* `ByteView.slice_eq` — cutting a source at the ends of a stretch gives the stretch
* `tokenize_tiling` — the tokens of a source tile it
-/

namespace Quasiquote

/-! ### Stretches of a text -/

/-- A token that may have no text: a dedent, the end marker, or the end of a last line that no line
feed ends. -/
def Token.MayBeEmpty (t : Token) (rest : List Char) : Prop :=
  t.kind = .dedent ∨ t.kind = .endMarker ∨ (t.kind = .newline ∧ rest = [])

/-- **A text as tokens with separating text between them.** The text begins at a byte offset. -/
inductive Tiles : Nat → List Char → List Token → Prop
  | done {offset : Nat} {rest : List Char} : Scan.Separates rest [] → Tiles offset rest []
  | token {offset : Nat} {gap rest : List Char} {t : Token} {tokens : List Token} :
      Scan.Separates gap (t.text.toList ++ rest) → t.start.offset = offset + byteLength gap →
      t.stop.offset = t.start.offset + byteLength t.text.toList →
      (t.text = "" → t.MayBeEmpty rest) → Tiles t.stop.offset rest tokens →
      Tiles offset (gap ++ (t.text.toList ++ rest)) (t :: tokens)

namespace Tiles

variable {offset : Nat} {text : List Char} {tokens : List Token}

/-- Every token is a stretch of the text, and it is empty only where it may be. -/
theorem stretch (h : Tiles offset text tokens) : ∀ t ∈ tokens, ∃ before after,
    text = before ++ (t.text.toList ++ after) ∧ t.start.offset = offset + byteLength before ∧
      t.stop.offset = t.start.offset + byteLength t.text.toList ∧
      (t.text = "" → t.MayBeEmpty after) := by
  induction h with
  | done => simp
  | @token offset gap rest t tokens _ hstart hstop hempty _ ih =>
    intro t' ht'
    rcases List.mem_cons.1 ht' with rfl | hmem
    · exact ⟨gap, rest, rfl, hstart, hstop, hempty⟩
    · obtain ⟨before, after, hrest, hstart', hstop', hempty'⟩ := ih t' hmem
      refine ⟨gap ++ (t.text.toList ++ before), after, by rw [hrest]; simp, ?_, hstop', hempty'⟩
      rw [byteLength_append, byteLength_append]
      omega

/-- The tokens stand one behind the other. -/
theorem ordered (h : Tiles offset text tokens) :
    tokens.Pairwise fun t t' => t.stop.offset ≤ t'.start.offset := by
  induction h with
  | done => exact .nil
  | token _ _ _ _ h ih =>
    refine .cons (fun t' ht' => ?_) ih
    obtain ⟨before, -, -, hstart, -⟩ := h.stretch t' ht'
    omega

end Tiles

namespace Lexer

/-- A token of the line is empty only at the end of the text. -/
theorem lineToken_mayBeEmpty {lx rest : Lexer} {t : Token} (h : lx.lineToken = (.ok t, rest))
    (hempty : t.text = "") : t.MayBeEmpty rest.ahead := by
  -- all other tokens take at least one of the characters that they begin with
  have htake (c : Char) (text : List Char) {n : Nat} (hn : 0 < n)
      (htext : t.text = String.ofList ((c :: text).take n)) : False := by
    obtain ⟨m, rfl⟩ : ∃ m, n = m + 1 := ⟨n - 1, by omega⟩
    rw [hempty, List.take_succ_cons] at htext
    exact absurd (congrArg String.toList htext) (by simp)
  rcases lineToken_cases h with ⟨hnil, hend⟩ | ⟨text, hcons, hcomment⟩ | ⟨c, text, hcons, hc, hbreak⟩ |
    ⟨c, text, kind, n, hcons, hlexeme, hstep⟩
  · obtain ⟨hkind, hahead⟩ := kind_endOfSource hend
    rcases hkind with hkind | hkind | hkind
    · exact .inr (.inr ⟨hkind, hahead.trans hnil⟩)
    · exact .inl hkind
    · exact .inr (.inl hkind)
  · cases hcomment
    have hpos : 0 < (lx.pastBlanks.ahead.takeWhile fun c => !Scan.endsLine c).length := by
      simp [hcons, show Scan.endsLine '#' = false by decide]
    exact (htake '#' text hpos (by rw [← hcons]; rfl)).elim
  · cases hbreak
    have hpos : 0 < Scan.breakLength lx.pastBlanks.ahead := Scan.breakLength_drop_blankLength hcons hc
    exact (htake c text hpos (by rw [← hcons]; rfl)).elim
  · cases hstep
    exact (htake c text (Scan.lexeme_length hlexeme).1 (by rw [← hcons]; rfl)).elim

/-- Tokens without a text stand for something else than text. -/
theorem next_mayBeEmpty {lx rest : Lexer} {t : Token} (h : lx.next = (.ok t, rest))
    (hempty : t.text = "") : t.MayBeEmpty rest.ahead := by
  rcases lx.next_cases with hpending | ⟨hpending, hstart, hdepth, step, hstep⟩ | hat
  · rw [next_of_pending hpending] at h
    cases h
    exact .inl rfl
  · rw [next_of_indentation hpending hstart hdepth hstep] at h
    subst h
    rcases indentation_cases hstep with ⟨hdeeper, rfl, -⟩ | ⟨-, -, rfl, -⟩
    · -- an indent is deeper than some level, so there is indentation
      exfalso
      have hnone : lx.ahead.takeWhile Scan.isGap = [] := by
        have htext := congrArg String.toList hempty
        have hbegins := List.prefix_iff_eq_take.1 (List.takeWhile_prefix (l := lx.ahead) Scan.isGap)
        rw [hbegins]
        simpa [token, gapLength, onLine] using htext
      have hwidth : Scan.indentWidth lx.ahead = 0 := by
        rw [Scan.indentWidth, hnone]
        rfl
      have hahead : lx.onLine.ahead = lx.ahead := rfl
      rw [hahead, hwidth] at hdeeper
      exact Nat.not_lt_zero _ hdeeper
    · exact .inl rfl
  · rw [next_of_atToken hat] at h
    exact lineToken_mayBeEmpty h hempty

/-- At its end marker, a reader has passed over all of its text. -/
theorem ahead_of_endMarker {lx rest : Lexer} {t : Token} (h : lx.next = (.ok t, rest))
    (hk : t.kind = .endMarker) : rest.ahead = [] := by
  obtain ⟨-, hline⟩ := lineToken_of_next h (by simp [hk])
  rcases lineToken_kinds hline with ⟨-, hnil, hend⟩ | ⟨hkind, -⟩ | ⟨hkind, -⟩ | ⟨hword, -⟩
  · exact (kind_endOfSource hend).2.trans hnil
  · simp [hk] at hkind
  · simp [hk] at hkind
  · simp [Token.Kind.isWord, hk] at hword

/-- A token goes in front of what tiles the text behind it. -/
theorem tiles_of_next {lx rest : Lexer} {t : Token} {tokens : List Token}
    (h : lx.next = (.ok t, rest)) (hrest : Tiles rest.here.offset rest.ahead tokens) :
    Tiles lx.here.offset lx.ahead (t :: tokens) := by
  obtain ⟨gap, hgap, htakes⟩ := separated_next h
  have hstart : t.start.offset = lx.here.offset + byteLength gap := by
    rw [htakes.start, Position.across_offset]
  have hstop : t.stop.offset = t.start.offset + byteLength t.text.toList := by
    rcases htakes.stop with hacross | halong
    · rw [hacross, Position.across_offset]
    · rw [halong]
      rfl
  rw [htakes.moves.ahead, List.append_assoc]
  exact .token hgap hstart hstop (next_mayBeEmpty h) (htakes.stop_offset ▸ hrest)

/-- **The tokens that a reader gives tile the text ahead of it.** -/
theorem tiles_run {lx : Lexer} (h : lx.run.2 = none) :
    Tiles lx.here.offset lx.ahead lx.run.1 := by
  fun_induction run lx with
  | case1 => simp at h
  | case2 lx t rest hnext hk =>
    refine tiles_of_next hnext (.done ?_)
    rw [ahead_of_endMarker hnext hk]
    exact .nil _
  | case3 lx t rest hnext hk later ih => exact tiles_of_next hnext (ih h)

end Lexer

/-! ### Cutting by offsets -/

namespace ByteView

/-- **Cutting a source at the ends of a stretch gives the stretch.** -/
theorem slice_eq {source : String} {before stretch after : List Char}
    (h : stripMark source.toList = before ++ (stretch ++ after)) :
    (ofSource source).slice (byteLength before) (byteLength before + byteLength stretch) =
      String.ofList stretch := by
  have hbytes : (ofSource source).bytes = Utf8.encode (before ++ (stretch ++ after)) := by
    rw [ofSource_eq, h]
    rfl
  exact slice_split hbytes

end ByteView

/-- A string is spelled by its bytes alone. -/
theorem Utf8.encodeString_injective {s s' : String} (h : encodeString s = encodeString s') : s = s' := by
  have htext := congrArg ByteView.text h
  rwa [encodeString, encodeString, ByteView.text_encode, ByteView.text_encode, String.ofList_toList,
    String.ofList_toList] at htext

/-! ### Whole sources -/

/-- **What is known of the tokens of a source.** Offsets are counted from behind its byte order
mark. -/
structure Tiling (source : String) (tokens : List Token) : Prop where
  /-- A token is a stretch of whole characters between its offsets. -/
  stretches : ∀ t ∈ tokens, ∃ before after,
    stripMark source.toList = before ++ (t.text.toList ++ after) ∧
      t.start.offset = byteLength before ∧
      t.stop.offset = byteLength before + byteLength t.text.toList
  /-- Cutting the source at the offsets of a token gives its text. -/
  cut : ∀ t ∈ tokens, (ByteView.ofSource source).slice t.start.offset t.stop.offset = t.text
  /-- The tokens stand one behind the other. -/
  ordered : tokens.Pairwise fun t t' => t.stop.offset ≤ t'.start.offset
  /-- A token without a text is a dedent, the end marker, or the end of a last line that no line
  feed ends. -/
  nonempty : ∀ t ∈ tokens, t.text = "" → t.kind = .dedent ∨ t.kind = .endMarker ∨
    (t.kind = .newline ∧ t.stop.offset = byteLength (stripMark source.toList))
  /-- Nothing but separating text stands before, between and behind the tokens. -/
  tiles : Tiles 0 (stripMark source.toList) tokens

/-- **The tokens of a source tile it.** -/
theorem tokenize_tiling {source : String} {tokens : List Token} (h : tokenize source = .ok tokens) :
    Tiling source tokens := by
  have htiles : Tiles 0 (stripMark source.toList) tokens := by
    unfold tokenize at h
    split at h
    · next found hrun =>
      cases h
      have hclean : (Lexer.ofSource source).run.2 = none := by rw [hrun]
      have hall := Lexer.tiles_run hclean
      rwa [hrun] at hall
    · cases h
  have hstretch := htiles.stretch
  refine ⟨fun t ht => ?_, fun t ht => ?_, htiles.ordered, fun t ht hempty => ?_, htiles⟩
  · obtain ⟨before, after, hsource, hstart, hstop, -⟩ := hstretch t ht
    exact ⟨before, after, hsource, by omega, by omega⟩
  · obtain ⟨before, after, hsource, hstart, hstop, -⟩ := hstretch t ht
    rw [Nat.zero_add] at hstart
    rw [hstop, hstart, ByteView.slice_eq hsource, String.ofList_toList]
  · obtain ⟨before, after, hsource, hstart, hstop, hmay⟩ := hstretch t ht
    rcases hmay hempty with hkind | hkind | ⟨hkind, rfl⟩
    · exact .inl hkind
    · exact .inr (.inl hkind)
    · refine .inr (.inr ⟨hkind, ?_⟩)
      rw [hsource, byteLength_append, List.append_nil]
      omega

/-- A source with a byte order mark, a line joined to the next one, a literal over two lines, a carriage
return that ends no line, and a last line without a line feed. -/
def crossedSource : String :=
  "\ufeffif \u00e9:\r\n\tx = \"\"\"a\n\u00e9\"\"\" \\\r\n  + 1 \r # c"

theorem crossedSource_tiling : ∃ tokens, tokens.length = 14 ∧ tokenize crossedSource = .ok tokens ∧
    Tiling crossedSource tokens := by
  have hlength : (tokenize crossedSource).toOption.map List.length = some 14 := by decide +kernel
  obtain ⟨tokens, htokens, hlength⟩ := Option.map_eq_some_iff.1 hlength
  have htokenize : tokenize crossedSource = .ok tokens := by
    cases h : tokenize crossedSource with
    | error e => simp [h, Except.toOption] at htokens
    | ok found => simpa [h, Except.toOption] using htokens
  exact ⟨tokens, hlength, htokenize, tokenize_tiling htokenize⟩

end Quasiquote
