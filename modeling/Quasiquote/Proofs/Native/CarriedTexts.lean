import Quasiquote.Proofs.Native.Attribution

/-!
# Texts that a program carries

The program for a body carries the name of the host file in its line directive and the host names in a
table. Both are written as literals, and C reads them as what they were written for: no file name and no host
name ends its literal, its line or its table early.

## Main Definitions

* `Native.directiveFile?` — the file that a line directive names
* `Native.Entries` — the literals of a table, read one after another
* `Native.Carries` — what C reads of the texts in a program

## Main Statements

* `Native.entries_names` — the table of names is read as the names
* `Native.texts_carried` — literals, line directives and tables are read as they were meant
-/

namespace Quasiquote.Native

/-! ### Line directives -/

/-- The bytes of the file name that a line directive gives. Nothing may stand behind its literal. -/
def directiveFile? : List Char → Option (List UInt8)
  | '#' :: 'l' :: 'i' :: 'n' :: 'e' :: ' ' :: rest =>
    match rest.dropWhile Char.isDigit with
    | ' ' :: literal =>
      match CString.read? literal with
      | some (bytes, []) => some bytes
      | _ => none
    | _ => none
  | _ => none

/-- **A directive names the file for which it was written.** -/
theorem Origin.directiveFile?_directiveText (o : Origin) :
    directiveFile? o.directiveText = some (Utf8.encodeString o.file) := by
  have hread := CString.read?_quote o.file []
  rw [List.append_nil] at hread
  rw [directiveText, directiveFile?, List.dropWhile_append_of_pos o.isDigit_of_mem_line,
    List.dropWhile_cons_of_neg (by decide)]
  simp only [hread]

/-! ### Tables of names -/

/-- **The literals of a table,** each with a comma and a space behind it, up to what is no literal. -/
inductive Entries : List Char → List (List UInt8) → List Char → Prop
  | done {text : List Char} : text.head? ≠ some '"' → Entries text [] text
  | literal {text rest after : List Char} {bytes : List UInt8} {entries : List (List UInt8)} :
      CString.read? text = some (bytes, ',' :: ' ' :: rest) → Entries rest entries after →
      Entries text (bytes :: entries) after

/-- The literals of a table are the only ones that can be read in it. -/
theorem Entries.unique {text after after' : List Char} {entries entries' : List (List UInt8)}
    (h : Entries text entries after) (h' : Entries text entries' after') :
    entries = entries' ∧ after = after' := by
  have hquote {text : List Char} {found : List UInt8 × List Char} (hread : CString.read? text = some found) :
      text.head? = some '"' := by
    unfold CString.read? at hread
    split at hread
    · rfl
    · cases hread
  induction h generalizing entries' with
  | done hnone =>
    cases h' with
    | done => exact ⟨rfl, rfl⟩
    | literal hread _ => exact absurd (hquote hread) hnone
  | literal hread _ ih =>
    cases h' with
    | done hnone => exact absurd (hquote hread) hnone
    | literal hread' hrest =>
      rw [hread] at hread'
      cases hread'
      obtain ⟨hentries, hafter⟩ := ih hrest
      exact ⟨congrArg (_ :: ·) hentries, hafter⟩

/-- What stands before the names of a table. -/
def tableHead : String := "static const char *const __qq_names[] = \x7b"

/-- What stands behind the names of a table. -/
def tableTail : String := "NULL\x7d;\n\n"

/-- The names of a table, as they are written. -/
def tableNames (names : List String) : String :=
  String.join (names.map fun name => CString.quote name ++ ", ")

theorem nameTable_eq (names : List String) : nameTable names = tableHead ++ tableNames names ++ tableTail :=
  rfl

/-- **The table of names is read as the names,** up to its end. -/
theorem entries_names (names : List String) (after : List Char) :
    Entries ((tableNames names).toList ++ (tableTail.toList ++ after)) (names.map Utf8.encodeString)
      (tableTail.toList ++ after) := by
  induction names with
  | nil =>
    have hnone : (tableNames []).toList = [] := rfl
    exact .done (by simp [hnone, tableTail])
  | cons name names ih =>
    have htext : (tableNames (name :: names)).toList =
        (CString.quote name).toList ++ ',' :: ' ' :: (tableNames names).toList := by
      simp [tableNames, String.join_cons]
    rw [htext, List.append_assoc]
    exact .literal (CString.read?_quote name _) ih

/-! ### Programs -/

/-- **What C reads of the texts in a program.** -/
structure Carries (kind : Site.Kind) (body : String) (names : List String) (origin : Origin)
    (column : Nat) : Prop where
  /-- The directive is a line of its own, before the body. -/
  line : ∃ front, (wrapper kind body names origin column).toList = front ++ '\n' ::
    (origin.directiveText ++ '\n' :: ((padding column kind).toList ++ body.toList ++
      (bodyBack kind body names).toList))
  /-- The directive ends where its line does. -/
  oneLine : '\n' ∉ origin.directiveText
  /-- It gives the line of the body. -/
  number : directiveLine? origin.directiveText = some origin.line
  /-- It names the file of the body. -/
  file : directiveFile? origin.directiveText = some (Utf8.encodeString origin.file)
  /-- The table stands behind the body, and its entries are the names and no others. -/
  table : ∃ front text, (wrapper kind body names origin column).toList =
      front ++ (tableHead.toList ++ text) ∧
    ∀ entries after, Entries text entries after ↔ entries = names.map Utf8.encodeString ∧
      after = tableTail.toList ++ (entryTable kind names.length).toList

theorem carries_wrapper (kind : Site.Kind) (body : String) (names : List String) (origin : Origin)
    (column : Nat) : Carries kind body names origin column := by
  refine ⟨?_, origin.feed_notMem_directiveText, origin.directiveLine?_directiveText,
    origin.directiveFile?_directiveText, ?_⟩
  · obtain ⟨front, hfront⟩ := bodyLead_ends kind names
    refine ⟨front, ?_⟩
    rw [wrapper_eq, bodyFront]
    simp only [String.toList_append, hfront, origin.toList_directive, List.append_assoc,
      List.cons_append, List.nil_append]
  · have hback : ∃ front, (bodyBack kind body names).toList =
        front ++ ((nameTable names).toList ++ (entryTable kind names.length).toList) := by
      rw [bodyBack.eq_def, String.toList_append, String.toList_append, List.append_assoc]
      exact ⟨_, rfl⟩
    obtain ⟨front, hfront⟩ := hback
    refine ⟨(bodyFront kind names origin column).toList ++ (body.toList ++ front),
      (tableNames names).toList ++ (tableTail.toList ++ (entryTable kind names.length).toList), ?_, ?_⟩
    · rw [wrapper_eq, String.toList_append, String.toList_append, hfront, nameTable_eq]
      simp only [String.toList_append, List.append_assoc]
    · intro entries after
      constructor
      · intro h
        exact h.unique (entries_names names _)
      · rintro ⟨rfl, rfl⟩
        exact entries_names names _

/-- **Literals, line directives and tables are read as they were meant.** A literal is one between two
quotes, all of it printable, and C reads it as the bytes of its text, whatever stands behind it. So a program
names the file, and its table the host names, for which it was made. -/
theorem texts_carried :
    (∀ text : String,
      (∃ inside, (CString.quote text).toList = '"' :: (inside ++ ['"'])) ∧
      (∀ c ∈ (CString.quote text).toList, CString.IsPrintable c) ∧
      ∀ after, CString.read? ((CString.quote text).toList ++ after) =
        some (Utf8.encodeString text, after)) ∧
    ∀ (kind : Site.Kind) (body : String) (names : List String) (origin : Origin) (column : Nat),
      Carries kind body names origin column :=
  ⟨fun text => ⟨⟨_, CString.toList_quote text⟩, CString.printable_quote text, CString.read?_quote text⟩,
    carries_wrapper⟩

end Quasiquote.Native
