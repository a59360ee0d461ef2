import Quasiquote.Native.Unit
import Quasiquote.Proofs.Native.CString
import Quasiquote.Proofs.Site.Front

/-!
# The position that a compiler attributes to a body

The compiler of a body learns from a line directive on which host line it is, and counts columns itself.
The unit for a body knows only the line of its context and the column of its site, so it computes where
the body begins from the layout that it expects.

## Main Definitions

* `Native.Presumed`, `Native.presumed` — where a compiler believes that it is behind some text
* `Native.bodyFront`, `Native.bodyBack` — a wrapper up to its body, and behind it

## Main Statements

* `Native.wrapper_eq` — the body stands in its wrapper as it is
* `Native.presumed_bodyFront` — before the body, the compiler believes what the wrapper was made for
* `Native.attributed_iff` — which sites have a layout where this is the position of the body

## Design Notes

`presumed` follows the directives that stand at the beginning of a line, in the one form in which
wrappers have them. In the text before a body there are no others.
-/

namespace Quasiquote.Native

/-! ### Positions as a compiler sees them -/

/-- Where a compiler believes that it is. -/
structure Presumed where
  line : Nat
  /-- The text before it on the same line. -/
  before : List Char

/-- The number that a line directive gives to the line below it. -/
def directiveLine? : List Char → Option Nat
  | '#' :: 'l' :: 'i' :: 'n' :: 'e' :: ' ' :: rest =>
    some (Nat.ofDigitChars 10 (rest.takeWhile Char.isDigit) 0)
  | _ => none

namespace Presumed

/-- The position behind one more character. -/
def past (p : Presumed) (c : Char) : Presumed :=
  if c = '\n' then ⟨(directiveLine? p.before).getD (p.line + 1), []⟩
  else { p with before := p.before ++ [c] }

/-- The position behind some more text. -/
def across (p : Presumed) (text : List Char) : Presumed := text.foldl past p

@[simp] theorem across_nil (p : Presumed) : p.across [] = p := rfl

theorem across_cons (p : Presumed) (c : Char) (text : List Char) :
    p.across (c :: text) = (p.past c).across text := rfl

theorem across_append (p : Presumed) (front back : List Char) :
    p.across (front ++ back) = (p.across front).across back := List.foldl_append

/-- The line stays the same up to the next line feed. -/
theorem across_oneLine (p : Presumed) {text : List Char} (h : '\n' ∉ text) :
    p.across text = { p with before := p.before ++ text } := by
  induction text generalizing p with
  | nil => rw [across_nil, List.append_nil]
  | cons c rest ih =>
    rw [List.mem_cons, not_or] at h
    rw [across_cons, past, if_neg (Ne.symm h.1), ih _ h.2, List.append_assoc]
    rfl

/-- Behind a line feed, a line begins. -/
theorem before_across_feed (p : Presumed) (text : List Char) :
    (p.across (text ++ ['\n'])).before = [] := by
  rw [across_append, across_cons, across_nil, past, if_pos rfl]

end Presumed

/-- The position of a compiler behind a text. -/
def presumed (text : List Char) : Presumed := Presumed.across ⟨1, []⟩ text

/-! ### Directives -/

/-- A literal stays on one line. -/
theorem feed_notMem_quote (text : String) : '\n' ∉ (CString.quote text).toList := fun hmem =>
  CString.ne_feed_of_isPrintable (CString.printable_quote text _ hmem) rfl

namespace Origin

/-- The directive without its line feed. -/
def directiveText (o : Origin) : List Char :=
  '#' :: 'l' :: 'i' :: 'n' :: 'e' :: ' ' ::
    (Nat.toDigits 10 o.line ++ ' ' :: (CString.quote o.file).toList)

theorem toList_directive (o : Origin) : o.directive.toList = o.directiveText ++ ['\n'] := by
  simp [directive, directiveText]

theorem isDigit_of_mem_line (o : Origin) : ∀ c ∈ Nat.toDigits 10 o.line, c.isDigit = true := by
  intro c hc
  exact Nat.isDigit_of_mem_toDigits (by decide) (by decide) hc

theorem feed_notMem_directiveText (o : Origin) : '\n' ∉ o.directiveText := by
  have hline : '\n' ∉ Nat.toDigits 10 o.line := by
    intro hmem
    exact absurd (o.isDigit_of_mem_line _ hmem) (by decide)
  simp [directiveText, hline, feed_notMem_quote]

/-- A directive gives the line for which it was written. -/
theorem directiveLine?_directiveText (o : Origin) : directiveLine? o.directiveText = some o.line := by
  rw [directiveText, directiveLine?, List.takeWhile_append_of_pos o.isDigit_of_mem_line,
    List.takeWhile_cons_of_neg (by decide), List.append_nil, Nat.ofDigitChars_ten_toDigits]

/-- Behind its directive, a compiler is at the origin. -/
theorem across_directive (o : Origin) {p : Presumed} (h : p.before = []) :
    p.across o.directive.toList = ⟨o.line, []⟩ := by
  rw [toList_directive, Presumed.across_append, Presumed.across_oneLine p o.feed_notMem_directiveText,
    h, List.nil_append, Presumed.across_cons, Presumed.across_nil, Presumed.past, if_pos rfl,
    directiveLine?_directiveText]
  rfl

end Origin

/-! ### Wrappers around their bodies -/

/-- The line that opens around a body. -/
def opening : Site.Kind → String
  | .block => "    \x7b\n"
  | .expression => "    __auto_type __qq_value = (\x7b\n"

/-- What stands before the directive in a wrapper. -/
def bodyLead (kind : Site.Kind) (names : List String) : String :=
  header ++ "\nstatic qq_object *__qq_call(const qq_api *qq, qq_object **__qq_slots)\n\x7b\n" ++
    declarations names ++ opening kind

/-- What a compiler is given to reach the column of a body. -/
def padding (column : Nat) : Site.Kind → String
  | .block => ""
  | .expression => String.ofList (List.replicate column ' ')

/-- A wrapper up to its body. -/
def bodyFront (kind : Site.Kind) (names : List String) (origin : Origin) (column : Nat) : String :=
  bodyLead kind names ++ origin.directive ++ padding column kind

/-- A wrapper behind its body. -/
def bodyBack (kind : Site.Kind) (body : String) (names : List String) : String :=
  (match kind with
  | .block =>
    (if body.toList.getLast? = some '\n' then "" else "\n") ++ closing "    " ++ writeBack names ++
      "    return qq->none();\n"
  | .expression =>
    "\n    ;\x7d);\n" ++
    "    _Static_assert(__builtin_types_compatible_p(__typeof__(__qq_value), qq_object *),\n" ++
    "                   \"a quoted C expression must have type qq_object *\");\n" ++
    writeBack names ++ "    return __qq_value;\n") ++
    "\x7d\n\n" ++ nameTable names ++ entryTable kind names.length

/-- **The body stands in its wrapper as it is.** -/
theorem wrapper_eq (kind : Site.Kind) (body : String) (names : List String) (origin : Origin)
    (column : Nat) :
    wrapper kind body names origin column =
      bodyFront kind names origin column ++ (body ++ bodyBack kind body names) := by
  unfold wrapper wrapperBody bodyFront bodyLead bodyBack
  -- no rewriting looks into the header
  generalize header = text
  cases kind with
  | block =>
    unfold blockText opening padding
    simp only [String.append_assoc, String.empty_append]
  | expression =>
    unfold expressionText opening padding
    simp only [String.append_assoc]

theorem opening_ends (kind : Site.Kind) : ∃ front, (opening kind).toList = front ++ ['\n'] := by
  cases kind with
  | block => exact ⟨"    \x7b".toList, rfl⟩
  | expression => exact ⟨"    __auto_type __qq_value = (\x7b".toList, rfl⟩

/-- The directive stands at the beginning of a line. -/
theorem bodyLead_ends (kind : Site.Kind) (names : List String) :
    ∃ front, (bodyLead kind names).toList = front ++ ['\n'] := by
  obtain ⟨front, hfront⟩ := opening_ends kind
  rw [bodyLead, String.toList_append, hfront, ← List.append_assoc]
  exact ⟨_, rfl⟩

/-- **Before the body, a compiler is at the origin,** behind the padding. -/
theorem presumed_bodyFront (kind : Site.Kind) (names : List String) (origin : Origin) (column : Nat) :
    presumed (bodyFront kind names origin column).toList =
      ⟨origin.line, (padding column kind).toList⟩ := by
  obtain ⟨front, hfront⟩ := bodyLead_ends kind names
  have hstart : (presumed (bodyLead kind names).toList).before = [] := by
    rw [hfront]
    exact Presumed.before_across_feed _ front
  have hpadding : '\n' ∉ (padding column kind).toList := by
    cases kind with
    | block => exact List.not_mem_nil
    | expression => simp [padding, List.mem_replicate]
  rw [bodyFront, String.toList_append, String.toList_append, presumed, Presumed.across_append,
    Presumed.across_append]
  show ((presumed (bodyLead kind names).toList).across _).across _ = _
  rw [origin.across_directive hstart, Presumed.across_oneLine _ hpadding]
  rfl

/-! ### Units of sites -/

/-- Where a wrapper for a body in a context begins to count. -/
def originOf (c : Context) (kind : Site.Kind) : Origin :=
  { file := c.frame.filename, line := bodyLine c kind }

/-- The text of a unit up to its body. -/
def CompilationUnit.front (u : CompilationUnit) (c : Context) (column : Nat) : List Char :=
  (bodyFront u.kind u.names (originOf c u.kind) (startColumn c column u.kind)).toList

/-- The unit for the body of a site. -/
def unitOf (arguments : List String) (s : Site) (c : Context) : CompilationUnit :=
  compilationUnit arguments s.kind s.body c s.column

/-- Where the compiler of its unit believes the body of a site to begin. -/
def attributed (arguments : List String) (s : Site) (c : Context) : Presumed :=
  presumed ((unitOf arguments s c).front c s.column)

theorem attributed_eq (arguments : List String) (s : Site) (c : Context) :
    attributed arguments s c =
      ⟨bodyLine c s.kind, (padding (startColumn c s.column s.kind) s.kind).toList⟩ :=
  presumed_bodyFront _ _ _ _

/-- The front of a unit is followed by the body. -/
theorem front_prefix (arguments : List String) (s : Site) (c : Context) :
    (unitOf arguments s c).front c s.column ++ s.body.toList <+:
      (unitOf arguments s c).source.toList := by
  show _ <+: (wrapper s.kind s.body (unitOf arguments s c).names (originOf c s.kind) _).toList
  rw [wrapper_eq, String.toList_append, String.toList_append, ← List.append_assoc]
  exact List.prefix_append _ _

/-- **Which bodies are attributed to their positions.** In the context in which a site of a source runs,
a compiler believes the body to begin where it does begin exactly if nothing in the opening of the site
could be left out, and its column is one that can be counted. -/
theorem attributed_iff {source : String} {sites : List Site} (hsites : findSites source = .ok sites)
    {s : Site} (hs : s ∈ sites) {c : Context} (hline : c.frame.line = s.line)
    (hname : c.quoterName = some s.quoter) (arguments : List String) :
    ∃ before front after,
      s.Stands (textOrigin source) (stripMark source.toList) before front after ∧
      (unitOf arguments s c).front c s.column ++ s.body.toList <+:
        (unitOf arguments s c).source.toList ∧
      ((attributed arguments s c).line = s.bodyLine ∧
        (attributed arguments s c).before.length =
          ((textOrigin source).across (before ++ front)).column ↔
        s.Plain front ∧ (s.kind = .expression → s.column + 3 + s.quoter.length ≤ columnLimit)) := by
  obtain ⟨before, front, after, hstands⟩ := Site.exists_stands hsites hs
  refine ⟨before, front, after, hstands, front_prefix arguments s c, ?_⟩
  rw [attributed_eq, hstands.bodyLine]
  cases hkind : s.kind with
  | block =>
    rw [hstands.column_block hkind, hstands.plain_iff_block hkind, bodyLine, hline]
    simp [padding, eq_comm]
  | expression =>
    have hcolumn : (padding (startColumn c s.column .expression) .expression).toList.length =
        min (s.column + 3 + s.quoter.length) columnLimit := by
      simp [padding, startColumn, bodyColumn, hname]
    obtain ⟨gap, -, hat⟩ := hstands.column_expression hkind
    rw [hcolumn, hstands.plain_iff_expression hkind, bodyLine, hline]
    constructor
    · -- a gap only moves the body further, and the limit only moves its column back
      rintro ⟨hbodyLine, hbodyColumn⟩
      have hmoved := hat hbodyLine.symm
      exact ⟨⟨hbodyLine.symm, by omega⟩, fun _ => by omega⟩
    · rintro ⟨⟨hbodyLine, hbodyColumn⟩, hcounted⟩
      have hlimit := hcounted rfl
      exact ⟨hbodyLine.symm, by omega⟩

/-- A block with its header on two lines, and an expression with a blank before its marker. -/
def looseSource : String := "with \\\n$q:\n  a\nx = [ $q|a|]\n"

/-- The block of `looseSource`. -/
def looseBlock : Site :=
  { kind := .block, quoter := "q", body := "  a\n", column := 0, line := 1, bodyLine := 3,
    sourceLine := "with \\", start := 0, stop := 15, newlines := 3 }

/-- The expression of `looseSource`. -/
def looseExpression : Site :=
  { kind := .expression, quoter := "q", body := "a", column := 4, line := 4, bodyLine := 4,
    sourceLine := "x = [ $q|a|]", start := 19, stop := 27, newlines := 0 }

/-- A context in which a site runs. -/
def contextAt (s : Site) : Context := .ofFrame (.ofModule "m" "m.py" s.line) s.quoter

theorem looseSource_attributed :
    (∃ before front after,
      looseBlock.Stands (textOrigin looseSource) (stripMark looseSource.toList) before front after ∧
      (attributed [] looseBlock (contextAt looseBlock)).line = 2 ∧ looseBlock.bodyLine = 3 ∧
      ¬ looseBlock.Plain front) ∧
    ∃ before front after,
      looseExpression.Stands (textOrigin looseSource) (stripMark looseSource.toList) before front
        after ∧
      (attributed [] looseExpression (contextAt looseExpression)).before.length = 8 ∧
      ((textOrigin looseSource).across (before ++ front)).column ≠ 8 := by
  have hsites : findSites looseSource = .ok [looseBlock, looseExpression] := by decide +kernel
  constructor
  · obtain ⟨before, front, after, hstands, -, hiff⟩ := attributed_iff hsites
      (List.mem_cons_self : looseBlock ∈ _) (c := contextAt looseBlock) rfl rfl []
    have hline : (attributed [] looseBlock (contextAt looseBlock)).line = 2 := by
      rw [attributed_eq]
      rfl
    refine ⟨before, front, after, hstands, hline, rfl, ?_⟩
    intro hplain
    have hsame := (hiff.2 ⟨hplain, fun hkind => nomatch hkind⟩).1
    exact absurd (hline.symm.trans hsame) (by decide)
  · obtain ⟨before, front, after, hstands, -, hiff⟩ := attributed_iff hsites
      (List.mem_cons_of_mem _ List.mem_cons_self : looseExpression ∈ _)
      (c := contextAt looseExpression) rfl rfl []
    have hpadded : attributed [] looseExpression (contextAt looseExpression) =
        ⟨4, List.replicate 8 ' '⟩ := by
      rw [attributed_eq]
      rfl
    rw [hpadded] at hiff ⊢
    refine ⟨before, front, after, hstands, rfl, ?_⟩
    intro hcolumn
    have hplain := (hiff.1 ⟨rfl, hcolumn.symm⟩).1
    have hspan := hstands.stop_eq
    rw [show front = ['[', '$', 'q', '|'] from hplain] at hspan
    exact absurd hspan (by decide)

end Quasiquote.Native
