import Mathlib.Data.List.Basic
import Mathlib.Tactic.MkIffOfInductiveProp
import Quasiquote.Files.Path
import Quasiquote.Proofs.Basic

/-!
# The pieces of paths

A path leads where its steps lead: its pieces without the empty ones and the single dots. The parts of a
path, and a path seen from a directory, have the steps that one expects of them.

## Main Definitions

* `Path.IsName` — a text that can name something in a directory
* `Path.steps` — the pieces that lead anywhere

## Main Statements

* `Path.pieces_join` — a path seen from a directory takes the steps of the directory first
* `Path.parent?_eq_some` — the parent of a path takes all its steps but the last
* `Path.mem_ancestors` — those above a path take its first steps
* `Path.fileName?_of_pieces` — the last piece of a path is its file name
* `Path.components_join` — a name seen from a directory is one more component

## Design Notes

The parent of a path may have other pieces than the path in front of its name, as `Path.parent?` passes
over slashes and single dots. So parents are compared by their steps.
-/

namespace Quasiquote.Path

/-! ### Names and steps -/

/-- A text that can name something in a directory. -/
@[mk_iff]
structure IsName (name : String) : Prop where
  ne_empty : name ≠ ""
  ne_dot : name ≠ "."
  ne_dots : name ≠ ".."
  no_slash : '/' ∉ name.toList
  no_nul : '\x00' ∉ name.toList

instance (name : String) : Decidable (IsName name) := decidable_of_iff _ (isName_iff name).symm

/-- Whether a piece leads anywhere. -/
def isStep (piece : String) : Bool := piece != "" && piece != "."

/-- The steps of a text. -/
def stepsOf (text : List Char) : List String := ((piecesOf text).map String.ofList).filter isStep

/-- The pieces of a path that lead anywhere. -/
def steps (path : String) : List String := stepsOf path.toList

/-- A text of some length that holds neither slashes nor NUL characters can name something. -/
theorem isName_of_length {name : String} (h : 2 < name.length) (hslash : '/' ∉ name.toList)
    (hnul : '\x00' ∉ name.toList) : IsName name := by
  refine ⟨?_, ?_, ?_, hslash, hnul⟩ <;>
    · rintro rfl
      exact absurd h (by decide)

namespace IsName

variable {name : String}

theorem isStep (h : IsName name) : isStep name = true := by simp [Path.isStep, h.ne_empty, h.ne_dot]

theorem toList_ne_nil (h : IsName name) : name.toList ≠ [] :=
  fun hnil => h.ne_empty (String.toList_eq_nil_iff.1 hnil)

theorem not_isAbsolute (h : IsName name) : isAbsolute name = false := by
  rw [isAbsolute, beq_eq_false_iff_ne]
  exact fun hhead => h.no_slash (List.mem_of_head? hhead)

end IsName

@[simp] theorem piecesOf_nil : piecesOf [] = [[]] := rfl

@[simp] theorem piecesOf_slash (text : List Char) : piecesOf ('/' :: text) = [] :: piecesOf text := rfl

theorem piecesOf_ne_nil (text : List Char) : piecesOf text ≠ [] := by
  cases text with
  | nil => simp
  | cons c rest =>
    rw [piecesOf]
    split
    · simp
    · split <;> simp

/-- A text without slashes is one piece. -/
theorem piecesOf_of_notMem {text : List Char} (h : '/' ∉ text) : piecesOf text = [text] := by
  induction text with
  | nil => rfl
  | cons c rest ih =>
    rw [List.mem_cons, not_or] at h
    rw [piecesOf, if_neg (Ne.symm h.1), ih h.2]

/-- The pieces on both sides of a slash. -/
theorem piecesOf_append (front back : List Char) :
    piecesOf (front ++ '/' :: back) = piecesOf front ++ piecesOf back := by
  induction front with
  | nil => rfl
  | cons c front ih =>
    rw [List.cons_append, piecesOf, piecesOf, ih]
    split
    · rfl
    · obtain ⟨piece, pieces, hpieces⟩ := List.exists_cons_of_ne_nil (piecesOf_ne_nil front)
      rw [hpieces]
      rfl

@[simp] theorem stepsOf_nil : stepsOf [] = [] := by simp [stepsOf, isStep]

@[simp] theorem stepsOf_dot : stepsOf ['.'] = [] := by decide

/-- The steps on both sides of a slash. -/
theorem stepsOf_append (front back : List Char) :
    stepsOf (front ++ '/' :: back) = stepsOf front ++ stepsOf back := by
  rw [stepsOf, piecesOf_append, List.map_append, List.filter_append]
  rfl

theorem stepsOf_slash (text : List Char) : stepsOf ('/' :: text) = stepsOf text := by
  have h := stepsOf_append [] text
  rwa [stepsOf_nil, List.nil_append, List.nil_append] at h

/-- A text without slashes is one step, unless it is passed over. -/
theorem stepsOf_of_notMem {text : List Char} (hslash : '/' ∉ text) (hnil : text ≠ [])
    (hdot : text ≠ ['.']) : stepsOf text = [String.ofList text] := by
  have hstep : isStep (String.ofList text) = true := by
    rw [isStep, Bool.and_eq_true, bne_iff_ne, bne_iff_ne]
    exact ⟨fun h => hnil (String.ofList_injective h), fun h => hdot (String.ofList_injective h)⟩
  rw [stepsOf, piecesOf_of_notMem hslash]
  simp [hstep]

theorem filter_pieces (path : String) : (pieces path).filter isStep = steps path := rfl

theorem dots_mem_steps {path : String} : ".." ∈ steps path ↔ ".." ∈ pieces path := by
  rw [← filter_pieces, List.mem_filter]
  exact and_iff_left (by decide)

/-- The characters of a piece are those of the path, without slashes. -/
theorem mem_of_mem_piecesOf {text piece : List Char} (h : piece ∈ piecesOf text) :
    ∀ c ∈ piece, c ∈ text ∧ c ≠ '/' := by
  induction text generalizing piece with
  | nil =>
    rw [piecesOf_nil, List.mem_singleton] at h
    simp [h]
  | cons d rest ih =>
    rw [piecesOf] at h
    intro c hc
    split at h
    · rcases List.mem_cons.1 h with rfl | h
      · cases hc
      · exact (ih h c hc).imp_left (List.mem_cons_of_mem _)
    · next hd =>
      obtain ⟨first, others, hrest⟩ := List.exists_cons_of_ne_nil (piecesOf_ne_nil rest)
      rw [hrest] at h ih
      rcases List.mem_cons.1 h with rfl | h
      · rcases List.mem_cons.1 hc with rfl | hc
        · exact ⟨List.mem_cons_self, hd⟩
        · exact (ih List.mem_cons_self c hc).imp_left (List.mem_cons_of_mem _)
      · exact (ih (List.mem_cons_of_mem _ h) c hc).imp_left (List.mem_cons_of_mem _)

/-- The pieces of a path hold neither slashes nor what the path does not hold. -/
theorem mem_of_mem_pieces {path piece : String} (h : piece ∈ pieces path) :
    ∀ c ∈ piece.toList, c ∈ path.toList ∧ c ≠ '/' := by
  obtain ⟨text, htext, rfl⟩ := List.mem_map.1 h
  rw [String.toList_ofList]
  exact mem_of_mem_piecesOf htext

/-! ### Paths seen from a directory -/

/-- A relative path seen from a directory stands behind a text that only the directory determines. -/
theorem exists_join (directory : String) :
    ∃ front, ∀ path, isAbsolute path = false → join directory path = front ++ path := by
  by_cases hends : (directory.isEmpty || directory.toList.getLast? == some '/') = true
  · exact ⟨directory, fun path h => by rw [join, if_neg (by simp [h]), if_pos hends]⟩
  · exact ⟨directory ++ "/", fun path h => by rw [join, if_neg (by simp [h]), if_neg hends]⟩

/-- A relative path seen from a directory starts where the directory's path starts. -/
theorem isAbsolute_join {directory path : String} (h : isAbsolute path = false) :
    isAbsolute (join directory path) = isAbsolute directory := by
  rw [join, if_neg (by simp [h])]
  by_cases hempty : directory = ""
  · simpa [hempty, isAbsolute] using h
  · obtain ⟨c, rest, hcons⟩ := List.exists_cons_of_ne_nil
      (fun hnil => hempty (String.toList_eq_nil_iff.1 hnil))
    split <;> simp [isAbsolute, hcons]

/-- **A relative path seen from a directory has its own pieces** behind some with the steps of the
directory. -/
theorem pieces_join {path : String} (directory : String) (h : isAbsolute path = false) :
    ∃ front, pieces (join directory path) = front ++ pieces path ∧
      front.filter isStep = steps directory := by
  rw [join, if_neg (by simp [h])]
  by_cases hempty : directory = ""
  · exact ⟨[], by simp [hempty], by simp [hempty, steps]⟩
  by_cases hslash : directory.toList.getLast? = some '/'
  · obtain ⟨front, hfront⟩ := List.getLast?_eq_some_iff.1 hslash
    refine ⟨(piecesOf front).map String.ofList, ?_, ?_⟩
    · rw [if_pos (by simp [hslash]), pieces, String.toList_append, hfront, List.append_assoc,
        List.singleton_append, piecesOf_append, List.map_append]
      rfl
    · rw [steps, hfront, stepsOf_append, stepsOf_nil, List.append_nil]
      rfl
  · refine ⟨pieces directory, ?_, rfl⟩
    rw [if_neg (by simp [hempty, hslash]), pieces, String.toList_append, String.toList_append,
      List.append_assoc]
    show (piecesOf (directory.toList ++ '/' :: path.toList)).map String.ofList = _
    rw [piecesOf_append, List.map_append]
    rfl

theorem pieces_name {name : String} (h : IsName name) : pieces name = [name] := by
  rw [pieces, piecesOf_of_notMem h.no_slash]
  simp

/-! ### The parts of a path -/

theorem trimTail_suffix (text : List Char) : trimTail text <:+ text := by
  fun_induction trimTail text with
  | case1 rest ih => exact ih.trans (List.suffix_cons _ _)
  | case2 rest ih => exact ih.trans ((List.suffix_cons _ _).trans (List.suffix_cons _ _))
  | case3 => exact List.nil_suffix
  | case4 => exact List.suffix_rfl

/-- Trimming leaves out no step, if a dot that it leaves out behind a head was none. -/
theorem stepsOf_trimTail (head text : List Char)
    (h : text.getLast? = some '.' → stepsOf (head ++ ['.']) = stepsOf head) :
    stepsOf (head ++ (trimTail text).reverse) = stepsOf (head ++ text.reverse) := by
  have hrest (front : List Char) {rest : List Char} (hlast : rest.getLast? = some '.') :
      (front ++ rest).getLast? = some '.' := by
    rw [List.getLast?_append, hlast]
    rfl
  fun_induction trimTail text with
  | case1 rest ih =>
    rw [ih fun hlast => h (hrest ['/'] hlast), List.reverse_cons, ← List.append_assoc, stepsOf_append,
      stepsOf_nil, List.append_nil]
  | case2 rest ih =>
    rw [ih fun hlast => h (hrest ['.', '/'] hlast), List.reverse_cons, List.reverse_cons,
      List.append_assoc, ← List.append_assoc]
    show _ = stepsOf (_ ++ '/' :: ['.'])
    rw [stepsOf_append, stepsOf_dot, List.append_nil]
  | case3 => simpa using (h rfl).symm
  | case4 => rfl

/-- What the head of a path is. -/
theorem splitHead_cases (path : List Char) :
    (∃ rest, path = '/' :: rest ∧ splitHead path = (['/'], rest)) ∨
    (path = ['.'] ∧ splitHead path = (['.'], [])) ∨
    (∃ rest, path = '.' :: '/' :: rest ∧ splitHead path = (['.'], '/' :: rest)) ∨
    (path.head? ≠ some '/' ∧ splitHead path = ([], path)) := by
  fun_cases splitHead path with
  | case1 rest => exact .inl ⟨rest, rfl, rfl⟩
  | case2 => exact .inr (.inl ⟨rfl, rfl⟩)
  | case3 rest => exact .inr (.inr (.inl ⟨rest, rfl, rfl⟩))
  | case4 _ hslash =>
    refine .inr (.inr (.inr ⟨fun hhead => ?_, rfl⟩))
    obtain ⟨rest, hrest⟩ := List.head?_eq_some_iff.1 hhead
    exact hslash rest hrest

/-- A path is its head and what follows that. -/
theorem splitHead_append (path : List Char) : (splitHead path).1 ++ (splitHead path).2 = path := by
  fun_cases splitHead path <;> rfl

/-- What follows a path does not change its head, unless a dot stops to be one of its pieces. -/
theorem splitHead_of_append {path more : List Char} (hpath : path ≠ [])
    (hdot : path = ['.'] → more.head? = some '/') :
    splitHead (path ++ more) = ((splitHead path).1, (splitHead path).2 ++ more) := by
  rcases splitHead_cases path with
    ⟨rest, rfl, hsplit⟩ | ⟨rfl, hsplit⟩ | ⟨rest, rfl, hsplit⟩ | ⟨hhead, hsplit⟩
  · rw [hsplit]
    rfl
  · obtain ⟨rest, rfl⟩ := List.head?_eq_some_iff.1 (hdot rfl)
    rw [hsplit]
    rfl
  · rw [hsplit]
    rfl
  · -- the whole has a head only if the path has one
    have hnone : splitHead (path ++ more) = ([], path ++ more) := by
      obtain ⟨c, rest, rfl⟩ := List.exists_cons_of_ne_nil hpath
      rcases splitHead_cases (c :: rest ++ more) with
        ⟨all, hall, -⟩ | ⟨hall, -⟩ | ⟨all, hall, -⟩ | ⟨-, h⟩
      · cases hall
        exact absurd rfl hhead
      · obtain ⟨rfl, hnil⟩ := List.cons.inj hall
        obtain ⟨rfl, -⟩ := List.append_eq_nil_iff.1 hnil
        cases hsplit
      · obtain ⟨rfl, hrest⟩ := List.cons.inj hall
        rcases List.append_eq_cons_iff.1 hrest with ⟨rfl, -⟩ | ⟨rest, rfl, -⟩
        · cases hsplit
        · cases hsplit
      · exact h
    rw [hnone, hsplit]

/-- Seen from its end, a text that was trimmed begins with a step, unless nothing is left. -/
theorem trimTail_cases (text : List Char) :
    trimTail text = [] ∨ ∃ name back, trimTail text = name ++ back ∧
      (trimTail text).takeWhile (· ≠ '/') = name ∧ (trimTail text).dropWhile (· ≠ '/') = back ∧
      stepsOf name.reverse = [String.ofList name.reverse] ∧ '/' ∉ name ∧
      (back = [] ∨ ∃ more, back = '/' :: more) := by
  fun_induction trimTail text with
  | case1 rest ih => exact ih
  | case2 rest ih => exact ih
  | case3 => exact .inl rfl
  | case4 text hslash hdot hsingle =>
    cases text with
    | nil => exact .inl rfl
    | cons c text =>
      have hname : '/' ∉ (c :: text).takeWhile (· ≠ '/') := fun h => by
        simpa using List.all_eq_true.1 (List.all_takeWhile (p := (· ≠ '/')) (l := c :: text)) _ h
      have hc : c ≠ '/' := by
        rintro rfl
        exact hslash _ rfl
      have hback : (c :: text).dropWhile (· ≠ '/') = [] ∨
          ∃ more, (c :: text).dropWhile (· ≠ '/') = '/' :: more := by
        cases h : (c :: text).dropWhile (· ≠ '/') with
        | nil => exact .inl rfl
        | cons d more =>
          have hd := List.head?_dropWhile_not (· ≠ '/') (c :: text)
          rw [h] at hd
          exact .inr ⟨more, by simpa using hd⟩
      refine .inr ⟨_, _, List.takeWhile_append_dropWhile.symm, rfl, rfl, ?_, hname, hback⟩
      refine stepsOf_of_notMem (by simpa using hname) (by simp [hc]) fun hsingleton => ?_
      -- a single dot would have been trimmed
      have htake : (c :: text).takeWhile (· ≠ '/') = ['.'] := by
        rw [← List.reverse_reverse ((c :: text).takeWhile _), hsingleton]
        rfl
      have hall := List.takeWhile_append_dropWhile (p := (· ≠ '/')) (l := c :: text)
      rw [htake, List.singleton_append] at hall
      rcases hback with hnil | ⟨more, hmore⟩
      · exact hsingle (by rw [← hall, hnil])
      · exact hdot more (by rw [← hall, hmore])

/-- What the head of a path is, and that trimming leaves out no step behind it. -/
theorem exists_head (path : String) :
    ∃ head rest, splitHead path.toList = (head, rest) ∧ path.toList = head ++ rest ∧
      (∀ text, text.getLast? = rest.head? →
        stepsOf (head ++ (trimTail text).reverse) = stepsOf (head ++ text.reverse)) ∧
      (head = [] ∧ rest.head? ≠ some '/' ∨ head = ['/'] ∨
        head = ['.'] ∧ (rest = [] ∨ rest.head? = some '/')) := by
  rcases splitHead_cases path.toList with ⟨rest, hpath, h⟩ | ⟨hpath, h⟩ | ⟨rest, hpath, h⟩ | ⟨hhead, h⟩
  · exact ⟨_, _, h, hpath, fun text _ => stepsOf_trimTail _ _ fun _ => by decide, .inr (.inl rfl)⟩
  · refine ⟨_, _, h, hpath, fun text hlast => stepsOf_trimTail _ _ fun hdot => ?_,
      .inr (.inr ⟨rfl, .inl rfl⟩)⟩
    rw [hlast] at hdot
    cases hdot
  · refine ⟨_, _, h, hpath, fun text hlast => stepsOf_trimTail _ _ fun hdot => ?_,
      .inr (.inr ⟨rfl, .inr rfl⟩)⟩
    rw [hlast] at hdot
    cases hdot
  · exact ⟨_, _, h, rfl, fun text _ => stepsOf_trimTail _ _ fun _ => by simp, .inl ⟨rfl, hhead⟩⟩

/-- A path that begins as another one, and has at least its head, starts where that starts. -/
theorem isAbsolute_of_head {path : String} {head rest kept : List Char} (hpath : path.toList = head ++ rest)
    (hhead : head = [] → rest.head? ≠ some '/') (hkept : kept <+: rest) :
    isAbsolute (String.ofList (head ++ kept)) = isAbsolute path := by
  rw [isAbsolute, isAbsolute, String.toList_ofList, hpath]
  cases head with
  | nil =>
    have hne : kept.head? ≠ some '/' := fun h => by
      obtain ⟨back, rfl⟩ := hkept
      exact hhead rfl (by rw [List.head?_append, h]; rfl)
    rw [List.nil_append, List.nil_append, beq_eq_false_iff_ne.2 hne, beq_eq_false_iff_ne.2 (hhead rfl)]
  | cons c head => rfl

/-- **The last step of a path is its file name, and the others are those of its parent.** -/
theorem exists_last {path : String} (h : tail path ≠ []) :
    ∃ front last parent, steps path = front ++ [last] ∧
      last.toList = ((tail path).takeWhile (· ≠ '/')).reverse ∧
      parent? path = some parent ∧ steps parent = front ∧ isAbsolute parent = isAbsolute path := by
  obtain ⟨head, rest, hsplit, hpath, htrim, hhead⟩ := exists_head path
  have hsteps : steps path = stepsOf (head ++ (tail path).reverse) := by
    rw [tail, hsplit, htrim _ (List.getLast?_reverse ..), List.reverse_reverse, steps, hpath]
  obtain ⟨front, hfront⟩ : tail path <:+ rest.reverse := by
    rw [tail, hsplit]
    exact trimTail_suffix _
  obtain ⟨name, back, htail, htake, hdrop, hname, hslash, hback⟩ := (trimTail_cases _).resolve_left h
  have hkept : (trimTail back).reverse <+: rest := by
    rw [← List.reverse_reverse rest, List.reverse_prefix, ← hfront]
    exact (trimTail_suffix _).trans ((htail ▸ List.suffix_append _ _).trans (List.suffix_append _ _))
  have hparent : parent? path = some (String.ofList (head ++ (trimTail back).reverse)) := by
    rw [parent?, hsplit]
    split
    · next hnil => exact absurd hnil h
    · rw [← hdrop]
      rfl
  refine ⟨_, String.ofList name.reverse, _, ?_, ?_, hparent, rfl, isAbsolute_of_head hpath ?_ hkept⟩
  · have htail : tail path = name ++ back := htail
    rw [hsteps, htail, List.reverse_append, steps, String.toList_ofList]
    rcases hback with rfl | ⟨more, rfl⟩
    · -- the last step is the only one
      have hnil : (trimTail []).reverse = [] := rfl
      rw [hnil, List.append_nil, List.reverse_nil, List.nil_append]
      rcases hhead with ⟨rfl, -⟩ | rfl | ⟨rfl, hrest⟩
      · rw [stepsOf_nil, List.nil_append, List.nil_append, hname]
      · rw [List.singleton_append, stepsOf_slash, stepsOf_slash, stepsOf_nil, List.nil_append, hname]
      · -- behind a dot, a slash comes first
        have hlast : rest.head? = name.getLast? := by
          rw [← List.getLast?_reverse, ← hfront, htail, List.append_nil,
            List.getLast?_append_of_ne_nil _ (by simpa [htail] using h)]
        rcases hrest with rfl | hrest
        · exact absurd (List.getLast?_eq_none_iff.1 hlast.symm) (by simpa [htail] using h)
        · exact absurd (List.mem_of_getLast? (hlast.symm.trans hrest)) hslash
    · have hlast : ('/' :: more).getLast? = rest.head? := by
        rw [← List.getLast?_reverse, ← hfront, htail, ← List.append_assoc,
          List.getLast?_append_of_ne_nil _ (List.cons_ne_nil _ _)]
      rw [htrim _ hlast, List.reverse_cons, ← List.append_assoc, ← List.append_assoc,
        List.append_assoc _ ['/'], List.singleton_append, stepsOf_append, hname, stepsOf_append,
        stepsOf_nil, List.append_nil]
  · rw [String.toList_ofList]
    exact congrArg List.reverse htake.symm
  · rintro rfl
    rcases hhead with ⟨-, hrest⟩ | hnil | ⟨hnil, -⟩
    · exact hrest
    · cases hnil
    · cases hnil

/-- A path at the end of which nothing is left has no steps. -/
theorem steps_of_tail_nil {path : String} (h : tail path = []) : steps path = [] := by
  obtain ⟨head, rest, hsplit, hpath, htrim, hhead⟩ := exists_head path
  have hnil : (trimTail rest.reverse).reverse = [] := by
    rw [tail, hsplit] at h
    rw [h]
    rfl
  have hsteps := htrim rest.reverse (List.getLast?_reverse ..)
  rw [List.reverse_reverse, ← hpath, hnil, List.append_nil] at hsteps
  rw [steps, ← hsteps]
  rcases hhead with ⟨rfl, -⟩ | rfl | ⟨rfl, -⟩
  · exact stepsOf_nil
  · exact (stepsOf_slash []).trans stepsOf_nil
  · exact stepsOf_dot

/-- **The parent of a path takes all its steps but the last,** from where the path starts. -/
theorem parent?_eq_some {path parent : String} (h : parent? path = some parent) :
    steps parent = (steps path).dropLast ∧ isAbsolute parent = isAbsolute path := by
  by_cases htail : tail path = []
  · obtain ⟨head, rest, hsplit, hpath, -, -⟩ := exists_head path
    rw [steps_of_tail_nil htail]
    rw [parent?, htail, hsplit] at h
    simp only at h
    split at h
    · next hdot =>
      cases h
      rw [isAbsolute, isAbsolute, hpath, hdot]
      exact ⟨stepsOf_nil, rfl⟩
    · cases h
  · obtain ⟨front, last, parent', hsteps, -, hparent, hfront, habsolute⟩ := exists_last htail
    cases hparent.symm.trans h
    rw [hsteps, List.dropLast_concat]
    exact ⟨hfront, habsolute⟩

/-- Those above a path take its first steps, from where the path starts. -/
theorem mem_ancestors {path p : String} (h : p ∈ ancestors path) :
    steps p <+: steps path ∧ isAbsolute p = isAbsolute path := by
  have hwithin (n : Nat) (path : String) (h : p ∈ ancestorsWithin n path) :
      steps p <+: steps path ∧ isAbsolute p = isAbsolute path := by
    fun_induction ancestorsWithin n path with
    | case1 path | case3 n path _ =>
      obtain rfl := List.mem_singleton.1 h
      exact ⟨List.prefix_rfl, rfl⟩
    | case2 n path parent hparent ih =>
      rcases List.mem_cons.1 h with rfl | h
      · exact ⟨List.prefix_rfl, rfl⟩
      · obtain ⟨hfirst, habsolute⟩ := ih h
        obtain ⟨hsteps, hparent⟩ := parent?_eq_some hparent
        rw [hsteps] at hfirst
        exact ⟨hfirst.trans (List.dropLast_prefix _), habsolute.trans hparent⟩
  exact hwithin _ _ h

/-- The directory of a path is its parent, unless it takes no steps. -/
theorem directoryOf_cases (path : String) :
    steps (directoryOf path) = [] ∨ parent? path = some (directoryOf path) := by
  unfold directoryOf
  split
  · exact .inl (by decide)
  · next hparent => exact .inr hparent
  · exact .inl (by decide)

/-- A file name holds no slash. -/
theorem slash_notMem_fileName {path name : String} (h : fileName? path = some name) :
    '/' ∉ name.toList := by
  intro hslash
  unfold fileName? at h
  split at h
  · cases h
  · cases h
  · cases h
    rw [String.toList_ofList, List.mem_reverse] at hslash
    simpa using List.all_eq_true.1 List.all_takeWhile _ hslash

section Parts

variable {path name : String} {front : List String}

theorem steps_of_pieces (h : pieces path = front ++ [name]) (hn : IsName name) :
    steps path = front.filter isStep ++ [name] := by
  rw [← filter_pieces, h, List.filter_append]
  simp [hn.isStep]

theorem tail_ne_nil (h : pieces path = front ++ [name]) (hn : IsName name) : tail path ≠ [] := by
  intro hnil
  have hsteps := steps_of_tail_nil hnil
  rw [steps_of_pieces h hn] at hsteps
  exact absurd hsteps (by simp)

/-- **The last piece of a path is its file name.** -/
theorem fileName?_of_pieces (h : pieces path = front ++ [name]) (hn : IsName name) :
    fileName? path = some name := by
  obtain ⟨front, last, -, hsteps, hlast, -⟩ := exists_last (tail_ne_nil h hn)
  rw [steps_of_pieces h hn] at hsteps
  obtain rfl : name = last := by simpa using (List.append_inj' hsteps rfl).2
  rw [fileName?, ← hlast]
  split
  · next hnil => exact absurd hnil hn.toList_ne_nil
  · next hdots => exact absurd (String.toList_inj.1 hdots) hn.ne_dots
  · rw [String.ofList_toList]

/-- **The file name of a path, seen from a directory,** is the name at the end of the joined path. A path
that has no file name ends in no name. -/
theorem fileName?_of_pieces_join {directory : String}
    (h : pieces (join directory ((fileName? path).getD path)) = front ++ [name]) (hn : IsName name) :
    fileName? path = some name := by
  cases hfile : fileName? path with
  | none =>
    rw [hfile, Option.getD_none] at h
    by_cases habsolute : isAbsolute path = true
    · rw [join, if_pos habsolute] at h
      rw [← hfile, fileName?_of_pieces h hn]
    · obtain ⟨before, hjoin, -⟩ := pieces_join directory (Bool.not_eq_true _ ▸ habsolute)
      have hlast : pieces path ≠ [] := by simp [pieces, piecesOf_ne_nil]
      obtain ⟨init, last, hpath⟩ := (List.eq_nil_or_concat' (pieces path)).resolve_left hlast
      rw [hjoin, hpath, ← List.append_assoc] at h
      obtain rfl : last = name := by simpa using (List.append_inj' h rfl).2
      rw [← hfile, fileName?_of_pieces hpath hn]
  | some found =>
    have hplain := slash_notMem_fileName hfile
    have hrelative : isAbsolute found = false := by
      rw [isAbsolute, beq_eq_false_iff_ne]
      exact fun hhead => hplain (List.mem_of_mem_head? hhead)
    rw [hfile, Option.getD_some] at h
    obtain ⟨before, hjoin, -⟩ := pieces_join directory hrelative
    have hpieces : pieces found = [found] := by simp [pieces, piecesOf_of_notMem hplain]
    rw [hjoin, hpieces] at h
    rw [List.singleton_inj.1 (List.append_inj' h rfl).2]

/-- The parent of a path that ends with a name takes the steps in front of the name. -/
theorem steps_parent (h : pieces path = front ++ [name]) (hn : IsName name) :
    ∃ parent, parent? path = some parent ∧ steps parent = front.filter isStep ∧
      isAbsolute parent = isAbsolute path := by
  obtain ⟨-, -, parent, -, -, hparent, -⟩ := exists_last (tail_ne_nil h hn)
  obtain ⟨hsteps, habsolute⟩ := parent?_eq_some hparent
  rw [steps_of_pieces h hn, List.dropLast_concat] at hsteps
  exact ⟨parent, hparent, hsteps, habsolute⟩

/-- A file name up to the extension. -/
theorem stemOf_append {stem extension : String} (hstem : stem ≠ "") (h : '.' ∉ extension.toList) :
    stemOf (stem ++ "." ++ extension) = stem := by
  have hextension : ∀ c ∈ extension.toList.reverse, decide (c ≠ '.') = true := by
    intro c hc
    have hne : c ≠ '.' := fun heq => h (heq ▸ List.mem_reverse.1 hc)
    exact decide_eq_true hne
  have hreverse : (stem ++ "." ++ extension).toList.reverse =
      extension.toList.reverse ++ '.' :: stem.toList.reverse := by simp
  rw [stemOf, hreverse, List.dropWhile_append_of_pos hextension, List.dropWhile_cons_of_neg (by decide)]
  split
  · next hnil => cases hnil
  · next hdot =>
    exact absurd (String.toList_eq_nil_iff.1 (List.reverse_eq_nil_iff.1 (List.cons.inj hdot).2)) hstem
  · next hcons =>
    obtain ⟨-, rfl⟩ := List.cons.inj hcons
    rw [List.reverse_reverse, String.ofList_toList]

end Parts

/-! ### Components -/

theorem components_eq (path : String) : components path =
    (if (splitHead path.toList).1.isEmpty then [] else [String.ofList (splitHead path.toList).1]) ++
      stepsOf (splitHead path.toList).2 := rfl

theorem stepsOf_name {name : String} (h : IsName name) : stepsOf name.toList = [name] := by
  rw [stepsOf, piecesOf_of_notMem h.no_slash]
  simp [h.isStep]

theorem splitHead_name {name : String} (h : IsName name) : splitHead name.toList = ([], name.toList) := by
  rcases splitHead_cases name.toList with ⟨rest, hname, -⟩ | ⟨hname, -⟩ | ⟨rest, hname, -⟩ | ⟨-, hsplit⟩
  · exact absurd (hname ▸ List.mem_cons_self) h.no_slash
  · exact absurd (String.toList_inj.1 hname) h.ne_dot
  · exact absurd (hname ▸ List.mem_cons_of_mem _ List.mem_cons_self) h.no_slash
  · exact hsplit

/-- A text at the end of which no piece is open. -/
def Closed (text : List Char) : Prop := ∀ c, text.getLast? = some c → c = '/'

theorem Closed.of_append (front : List Char) {text : List Char} (h : Closed (front ++ text)) :
    Closed text := by
  intro c hlast
  refine h c ?_
  rw [List.getLast?_append, hlast]
  rfl

/-- A name behind a text at the end of which no piece is open is one more step. -/
theorem Closed.stepsOf_append {text : List Char} (h : Closed text) {name : String} (hn : IsName name) :
    stepsOf (text ++ name.toList) = stepsOf text ++ [name] := by
  rcases List.eq_nil_or_concat text with rfl | ⟨front, c, rfl⟩
  · simp [stepsOf_name hn]
  · rw [List.concat_eq_append] at h ⊢
    obtain rfl : c = '/' := h c List.getLast?_concat
    rw [List.append_assoc, List.singleton_append, Path.stepsOf_append, Path.stepsOf_append,
      stepsOf_name hn, stepsOf_nil, List.append_nil]

/-- **A name seen from a directory** is one more component. -/
theorem components_join (directory : String) {name : String} (hn : IsName name) :
    components (join directory name) = components directory ++ [name] := by
  rw [join, if_neg (by simp [hn.not_isAbsolute])]
  by_cases hempty : directory = ""
  · rw [if_pos (by simp [hempty]), hempty, String.empty_append, components_eq, splitHead_name hn]
    simp [components_eq, stepsOf_name hn, splitHead]
  have hne : directory.toList ≠ [] := fun hnil => hempty (String.toList_eq_nil_iff.1 hnil)
  by_cases hslash : directory.toList.getLast? = some '/'
  · have hdot : directory.toList = ['.'] → name.toList.head? = some '/' := by
      intro hdot
      rw [hdot] at hslash
      exact absurd hslash (by decide)
    have hclosed : Closed (splitHead directory.toList).2 := by
      refine Closed.of_append (splitHead directory.toList).1 fun c hc => ?_
      rw [splitHead_append, hslash] at hc
      exact (Option.some.inj hc).symm
    rw [if_pos (by simp [hslash]), components_eq, String.toList_append, splitHead_of_append hne hdot,
      hclosed.stepsOf_append hn, ← List.append_assoc, components_eq]
  · have hpath : (directory ++ "/" ++ name).toList = directory.toList ++ '/' :: name.toList := by simp
    rw [if_neg (by simp [hempty, hslash]), components_eq, hpath, splitHead_of_append hne fun _ => rfl,
      stepsOf_append, stepsOf_name hn, ← List.append_assoc, components_eq]

end Quasiquote.Path
