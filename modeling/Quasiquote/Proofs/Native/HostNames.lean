import Quasiquote.Proofs.Native.Identifiers

/-!
# The host names of a body

The names that a body uses are found by a reader that knows less of C than a compiler: it does not join lines,
takes the encoding prefix of a literal for a name, and ends a number at an underscore or a sign. A piece of C
code is plain if it is written without these. The host names of plain pieces are the identifiers that C has, in
the order of their first use, and without repetition.

## Main Definitions

* `IsHostName` — the names by which a body can mean a host binding
* `Lexical.Piece.Plain` — the pieces that are written without what the reader does not know
* `FirstUses` — names in the order of their first use

## Main Statements

* `readNames_munch`, `readNames_pieces` — what is read in one plain piece, and in a run of them
* `firstUses_distinct` — the list without repetitions has the first uses
* `referencedNames_firstUses` — the host names of a body are its identifiers, as far as its pieces are plain

## Design Notes

Whether a piece is plain is seen from its characters and line joins alone, and for the prefix of a literal from
the names that are bound. The reader has no part in it.
-/

namespace Quasiquote.Native

open Lexical

/-! ### Pieces -/

/-- A name by which a body can mean a host binding. -/
def IsHostName (isBound : String → Bool) (name : String) : Prop :=
  isBound name = true ∧ name ∉ keywords ∧ name ≠ tableName ∧ ¬ wrapperMark.toList <+: name.toList

instance (isBound : String → Bool) (name : String) : Decidable (IsHostName isBound name) :=
  inferInstanceAs (Decidable (_ ∧ _ ∧ _ ∧ ¬ _))

variable (isBound : String → Bool)

/-- The host names that are read in a text. -/
def readNames (code : List Char) : List String :=
  ((identifiers code).map String.ofList).filter fun name => IsHostName isBound name

/-- The host names among the identifiers of a body. -/
def hostNames (ps : List Piece) : List String :=
  (ps.filterMap Piece.name?).filter fun name => IsHostName isBound name

/-- No encoding prefix, or one without line joins that is no host name. -/
def PlainPrefix (encoding : List Glyph) : Prop :=
  encoding = [] ∨ Unbroken encoding ∧ ¬ IsHostName isBound (String.ofList (joined encoding))

instance (encoding : List Glyph) : Decidable (PlainPrefix isBound encoding) :=
  inferInstanceAs (Decidable (_ ∨ _))

/-- **A plain piece.** No lines are joined within the marks of a comment, in a comment up to the end of its line,
and in an identifier. The mark that closes a block comment is not split. The prefix of a literal is no host name,
and its lines are joined by line feeds only and not within an escape. A number has letters, digits, points and
signs only, with a digit behind a sign and behind a line join. An identifier has basic characters only. -/
def Lexical.Piece.Plain : Piece → Prop
  | lineComment mark content => Unbroken mark ∧ ∀ g ∈ content, g.lead = []
  | blockComment mark content => Unbroken mark ∧ Closes content
  | literal mark content => PlainPrefix isBound mark.dropLast ∧ Ends content
  | number gs => Numeral gs
  | identifier gs => Unbroken gs ∧ ∀ g ∈ gs, isBasic g.char = true
  | other _ => True

instance (p : Piece) : Decidable (p.Plain isBound) :=
  match p with
  | .lineComment mark content => inferInstanceAs (Decidable (Unbroken mark ∧ ∀ g ∈ content, g.lead = []))
  | .blockComment mark content => inferInstanceAs (Decidable (Unbroken mark ∧ Closes content))
  | .literal mark content => inferInstanceAs (Decidable (PlainPrefix isBound mark.dropLast ∧ Ends content))
  | .number gs => inferInstanceAs (Decidable (Numeral gs))
  | .identifier gs => inferInstanceAs (Decidable (Unbroken gs ∧ ∀ g ∈ gs, isBasic g.char = true))
  | .other _ => inferInstanceAs (Decidable True)

variable {isBound}

theorem referencedNames_eq (body : String) (isBound : String → Bool) :
    referencedNames body isBound = distinct [] (readNames isBound body.toList) := by
  rw [referencedNames, readNames]
  congr 2
  funext name
  rw [Bool.eq_iff_iff, decide_eq_true_iff]
  simp only [isDeclarable, IsHostName, Bool.and_eq_true, Bool.not_eq_true', bne_iff_ne, List.contains_eq_mem,
    decide_eq_false_iff_not, ← List.isPrefixOf_iff_prefix, Bool.not_eq_true]
  rw [and_comm, and_assoc]

theorem hostNames_cons (p : Piece) (ps : List Piece) :
    hostNames isBound (p :: ps) = hostNames isBound [p] ++ hostNames isBound ps := by
  rw [hostNames, hostNames, hostNames, ← List.singleton_append, List.filterMap_append, List.filter_append]

/-- In a plain prefix there is no host name to read. -/
theorem readNames_encoding {encoding : List Char} {quote : Char} (hmark : (encoding, quote) ∈ literalMarks)
    {gs : List Glyph} (hjoined : joined gs = encoding) (hplain : PlainPrefix isBound gs) :
    readNames isBound encoding = [] := by
  rw [readNames, identifiers_encoding hmark]
  rcases hplain with rfl | ⟨-, hnot⟩
  · rw [← hjoined]
    rfl
  · rw [hjoined] at hnot
    split
    · rfl
    · simp [hnot]

theorem PlainPrefix.unbroken {encoding : List Glyph} (h : PlainPrefix isBound encoding) :
    Unbroken encoding := by
  rcases h with rfl | ⟨hunbroken, -⟩
  · exact nofun
  · exact hunbroken

/-- **Of a plain piece** the reader has the host name that it is, and goes on behind it. -/
theorem readNames_munch {extended : Char → Bool} {g : Glyph} {rest : List Glyph}
    (h : (munch extended g rest).1.Plain isBound) (trail : List LineJoin) :
    readNames isBound (spelled (g :: rest) ++ joinText trail) =
      hostNames isBound [(munch extended g rest).1] ++
        readNames isBound (spelled (munch extended g rest).2 ++ joinText trail) := by
  revert h
  fun_cases munch extended g rest with
  | case1 hline =>
    rintro ⟨hunbroken, hlead⟩
    rw [readNames, identifiers_lineComment hline hunbroken hlead trail]
    rfl
  | case2 hline hblock text =>
    rintro ⟨hmark, hcloses⟩
    rw [readNames, identifiers_blockComment hblock hmark rfl hcloses]
    rfl
  | case3 hline hblock encoding quote hmark text =>
    rintro ⟨hencoding, hends⟩
    have hjoined : joined (g :: rest.take encoding.length).dropLast = encoding := by
      rw [joined, List.map_dropLast]
      exact (congrArg List.dropLast (joined_mark hmark)).trans List.dropLast_concat
    have hnone := readNames_encoding (List.mem_of_find?_eq_some hmark) hjoined hencoding
    rw [readNames, identifiers_literal hmark hencoding.unbroken rfl hends, List.map_append, List.filter_append,
      ← readNames, hnone]
    rfl
  | case4 hline hblock hmark hnumber =>
    rintro hnumeral
    rw [readNames, identifiers_number hnumber hnumeral]
    rfl
  | case5 hline hblock hmark hnumber hname =>
    rintro ⟨hunbroken, hword⟩
    rw [readNames, identifiers_identifier hnumber hunbroken hword trail, List.map_cons, ← List.singleton_append,
      List.filter_append]
    rfl
  | case6 hline hblock hmark hnumber hname =>
    rintro -
    rw [readNames, identifiers_other hline hblock hmark hnumber (by simpa using (Bool.or_eq_false_iff.1 (Bool.eq_false_iff.2 hname)).1)]
    rfl

/-- **Of plain pieces** the reader has the host names that they are, and goes on behind them. -/
theorem readNames_pieces {extended : Char → Bool} {gs : List Glyph} {front back : List Piece}
    (hpieces : pieces extended gs = front ++ back) (hplain : ∀ p ∈ front, p.Plain isBound)
    (trail : List LineJoin) :
    ∃ rest, gs = front.flatMap Piece.glyphs ++ rest ∧ pieces extended rest = back ∧
      readNames isBound (spelled gs ++ joinText trail) =
        hostNames isBound front ++ readNames isBound (spelled rest ++ joinText trail) := by
  induction front generalizing gs with
  | nil => exact ⟨gs, rfl, hpieces, rfl⟩
  | cons p front ih =>
    cases gs with
    | nil => simp [pieces] at hpieces
    | cons g gs =>
      rw [pieces, List.cons_append, List.cons.injEq] at hpieces
      obtain ⟨rfl, hpieces⟩ := hpieces
      obtain ⟨rest, hglyphs, hback, hread⟩ := ih hpieces fun p hp => hplain p (List.mem_cons_of_mem _ hp)
      refine ⟨rest, ?_, hback, ?_⟩
      · rw [List.flatMap_cons, List.append_assoc, ← hglyphs, munch_glyphs]
      · rw [readNames_munch (hplain _ List.mem_cons_self), hread, ← List.append_assoc, ← hostNames_cons]

/-! ### First uses -/

/-- Names in the order of their first use. -/
structure FirstUses (uses names : List String) : Prop where
  nodup : names.Nodup
  mem_iff : ∀ name, name ∈ names ↔ name ∈ uses
  inOrder : names.Pairwise fun a b => uses.idxOf a < uses.idxOf b

theorem mem_distinct {seen uses : List String} {name : String} :
    name ∈ distinct seen uses ↔ name ∈ uses ∧ name ∉ seen := by
  fun_induction distinct seen uses with
  | case1 seen => simp
  | case2 seen a rest hmem ih =>
    rw [ih, List.mem_cons]
    constructor
    · rintro ⟨hrest, hseen⟩
      exact ⟨.inr hrest, hseen⟩
    · rintro ⟨rfl | hrest, hseen⟩
      · exact absurd hmem hseen
      · exact ⟨hrest, hseen⟩
  | case3 seen a rest hmem ih =>
    rw [List.mem_cons, ih, List.mem_cons, List.mem_cons, not_or]
    constructor
    · rintro (rfl | ⟨hrest, -, hseen⟩)
      · exact ⟨.inl rfl, hmem⟩
      · exact ⟨.inr hrest, hseen⟩
    · rintro ⟨rfl | hrest, hseen⟩
      · exact .inl rfl
      · by_cases heq : name = a
        · exact .inl heq
        · exact .inr ⟨hrest, heq, hseen⟩

theorem pairwise_distinct (seen uses : List String) :
    (distinct seen uses).Pairwise fun a b => uses.idxOf a < uses.idxOf b := by
  -- names other than the first one are used one place later, seen from the first one
  have hlater : ∀ {first : String} {rest names : List String}, (∀ a ∈ names, a ≠ first) →
      (names.Pairwise fun a b => rest.idxOf a < rest.idxOf b) →
      names.Pairwise fun a b => (first :: rest).idxOf a < (first :: rest).idxOf b := by
    intro first rest names hne h
    refine h.imp_of_mem fun {a b} ha hb hlt => ?_
    rw [List.idxOf_cons_ne _ (hne a ha).symm, List.idxOf_cons_ne _ (hne b hb).symm]
    exact Nat.succ_lt_succ hlt
  fun_induction distinct seen uses with
  | case1 seen => exact List.Pairwise.nil
  | case2 seen first rest hmem ih =>
    refine hlater (fun a ha heq => ?_) ih
    exact (mem_distinct.1 ha).2 (heq ▸ hmem)
  | case3 seen first rest hmem ih =>
    have hne : ∀ a ∈ distinct (first :: seen) rest, a ≠ first := by
      rintro a ha rfl
      exact (mem_distinct.1 ha).2 List.mem_cons_self
    refine List.Pairwise.cons (fun a ha => ?_) (hlater hne ih)
    rw [List.idxOf_cons_self, List.idxOf_cons_ne _ (hne a ha).symm]
    exact Nat.succ_pos _

theorem firstUses_distinct (uses : List String) : FirstUses uses (distinct [] uses) where
  nodup := (pairwise_distinct [] uses).imp fun {a b} hlt heq => by
    rw [heq] at hlt
    exact Nat.lt_irrefl _ hlt
  mem_iff _ := mem_distinct.trans (and_iff_left List.not_mem_nil)
  inOrder := pairwise_distinct [] uses

/-- What comes later adds names at the end. -/
theorem distinct_append (seen uses later : List String) :
    ∃ names, distinct seen (uses ++ later) = distinct seen uses ++ names := by
  fun_induction distinct seen uses with
  | case1 seen => exact ⟨distinct seen later, rfl⟩
  | case2 seen a rest hmem ih =>
    rw [List.cons_append, distinct, if_pos hmem]
    exact ih
  | case3 seen a rest hmem ih =>
    obtain ⟨names, hnames⟩ := ih
    rw [List.cons_append, distinct, if_neg hmem, hnames]
    exact ⟨names, rfl⟩

/-- **The host names of a body.** There are no two of a kind, and each is bound and no keyword, `qq` or name of
the wrapper. As far as the pieces of the body are plain, they are the identifiers that C has, in the order of
their first use, before any other. If all pieces are plain, there are no others. -/
theorem referencedNames_firstUses (extended : Char → Bool) (body : String) (isBound : String → Bool) :
    ((referencedNames body isBound).Nodup ∧ ∀ name ∈ referencedNames body isBound, IsHostName isBound name) ∧
    (∀ front back, pieces extended (glyphs body.toList) = front ++ back → (∀ p ∈ front, p.Plain isBound) →
      ∃ rest names others, body.toList = spelled (front.flatMap Piece.glyphs) ++ rest ∧
        referencedNames body isBound = names ++ others ∧ FirstUses (hostNames isBound front) names) ∧
    ((∀ p ∈ pieces extended (glyphs body.toList), p.Plain isBound) →
      FirstUses (hostNames isBound (pieces extended (glyphs body.toList))) (referencedNames body isBound)) := by
  obtain ⟨trail, htext⟩ := exists_spelled_glyphs body.toList
  have hread : ∀ front back, pieces extended (glyphs body.toList) = front ++ back →
      (∀ p ∈ front, p.Plain isBound) → ∃ rest, glyphs body.toList = front.flatMap Piece.glyphs ++ rest ∧
        pieces extended rest = back ∧ referencedNames body isBound = distinct []
          (hostNames isBound front ++ readNames isBound (spelled rest ++ joinText trail)) := by
    intro front back hsplit hplain
    obtain ⟨rest, hglyphs, hback, hread⟩ := readNames_pieces hsplit hplain trail
    exact ⟨rest, hglyphs, hback, by rw [referencedNames_eq, htext, hread]⟩
  refine ⟨⟨?_, fun name hname => ?_⟩, fun front back hsplit hplain => ?_, fun hplain => ?_⟩
  · rw [referencedNames_eq]
    exact (firstUses_distinct _).nodup
  · rw [referencedNames_eq, mem_distinct] at hname
    exact of_decide_eq_true (List.mem_filter.1 hname.1).2
  · obtain ⟨rest, hglyphs, -, hnames⟩ := hread front back hsplit hplain
    obtain ⟨others, hothers⟩ := distinct_append [] (hostNames isBound front)
      (readNames isBound (spelled rest ++ joinText trail))
    refine ⟨spelled rest ++ joinText trail, _, others, ?_, hnames.trans hothers, firstUses_distinct _⟩
    rw [← List.append_assoc, ← spelled_append, ← hglyphs, ← htext]
  · obtain ⟨rest, -, hback, hnames⟩ := hread _ [] (List.append_nil _).symm hplain
    obtain rfl : rest = [] := by
      cases rest with
      | nil => rfl
      | cons g rest => simp [pieces] at hback
    have hnone : readNames isBound (spelled [] ++ joinText trail) = [] := by
      rw [spelled_nil, List.nil_append, readNames, identifiers_joins fun _ => mem_joinText]
      rfl
    rw [hnames, hnone, List.append_nil]
    exact firstUses_distinct _

/-- A body with comments, a joined literal, a prefix, and numbers with a suffix and with a sign. -/
def commentedBody : String :=
  "int a = b; // c's 1_d\n/* d */ f(L\"g \\\nh\", 'i', 0x1FUL, .5e-3, a);"

/-- Of the commented body, the names outside comments, literals and numbers are host names, and the prefix is not
bound. -/
theorem commentedBody_firstUses :
    (∀ p ∈ pieces (fun _ => false) (glyphs commentedBody.toList), p.Plain fun name => name ≠ "L") ∧
      FirstUses ["a", "b", "f", "a"] (referencedNames commentedBody fun name => name ≠ "L") := by
  have hplain : ∀ p ∈ pieces (fun _ => false) (glyphs commentedBody.toList), p.Plain fun name => name ≠ "L" := by
    decide +kernel
  have hnames : hostNames (fun name => name ≠ "L") (pieces (fun _ => false) (glyphs commentedBody.toList)) =
      ["a", "b", "f", "a"] := by decide +kernel
  have huses := (referencedNames_firstUses (fun _ => false) commentedBody fun name => name ≠ "L").2.2 hplain
  exact ⟨hplain, hnames ▸ huses⟩

/-- A joined line goes on with its comment in C, but not for the reader. -/
example :
    referencedNames "// c \\\nx" (fun _ => true) = ["x"] ∧
      hostNames (fun _ => true) (pieces (fun _ => false) (glyphs "// c \\\nx".toList)) = [] := by
  decide +kernel

end Quasiquote.Native
