import Mathlib.Data.List.Basic
import Quasiquote.Proofs.Site.Layout

/-!
# A token directly before a call

A site begins with a bracket or a word, its call with the quoter's name. Where nothing separates the
site from the token before it, the name can run into that token. This file says when it does, and
what becomes of the words.

## Main Definitions

* `Glued` — a token that clings to the call behind it
* `RunsOn` — a number that goes on with what follows it
* `Site.gluedFront` — what such a token and the front of the call come to
* `respelled` — the words of a source whose sites are replaced
* `Site.lostFront` — what the front of a call comes to behind a byte order mark

## Main Statements

* `respelled_eq_iff` — the words are those of the tokens and the calls unless a token clings
* `words_gluedFront` — the words that a token comes to that clings
-/

namespace Quasiquote

open Scan

/-! ### What runs on -/

/-- Whether a character is a single byte. -/
def isAscii (c : Char) : Bool := c.utf8Size == 1

namespace Site

/-- The front of a call behind a number: the number takes the single bytes of the name, and if the
name has no others, the point and the method as well. -/
def numberFront (s : Site) (number name : List Char) : List Spelling :=
  if name.all isAscii then
    [(.number, String.ofList (number ++ (name ++ '.' :: s.kind.method.toList)))]
  else
    (.number, String.ofList (number ++ name.takeWhile isAscii)) ::
      (.name, String.ofList (name.dropWhile isAscii)) :: s.methodWords

/-- **A token that clings, and the front of the call behind it.** A name becomes one with the
quoter's name, a number runs into it, and an operator of two characters falls apart. -/
def gluedFront (s : Site) (t : Token) : List Spelling :=
  match t.kind with
  | .name => (.name, t.text ++ s.quoter) :: s.methodWords
  | .number => s.numberFront t.text.toList s.quoter.toList
  | _ => t.text.toList.map (fun c => (.operator, String.ofList [c])) ++ s.frontWords

theorem numberFront_ne_nil (s : Site) (number name : List Char) : s.numberFront number name ≠ [] := by
  unfold numberFront
  split <;> simp

theorem gluedFront_ne_nil (s : Site) (t : Token) : s.gluedFront t ≠ [] := by
  unfold gluedFront
  split
  · simp
  · exact s.numberFront_ne_nil _ _
  · simp [frontWords]

end Site

/-- A token stands directly before a site, and clings to the quoter's name. -/
def Glued (t : Token) (s : Site) : Prop :=
  t.stop.offset = s.start ∧ ∃ d ∈ s.quoter.toList.head?, Clings t.kind t.text.length d

instance (t : Token) (s : Site) : Decidable (Glued t s) :=
  inferInstanceAs (Decidable (t.stop.offset = s.start ∧
    ∃ d ∈ s.quoter.toList.head?, Clings t.kind t.text.length d))

/-- The words of a token, or of the call that replaces a site. -/
def Piece.words : Piece → List Spelling
  | .token t => [t.spelling]
  | .site s => s.callWords

/-- The words of a source whose sites are replaced. -/
def respelled : List Piece → List Spelling
  | [] => []
  | .site s :: rest => s.callWords ++ respelled rest
  | [.token t] => [t.spelling]
  | .token t :: .token t' :: rest => t.spelling :: respelled (.token t' :: rest)
  | .token t :: .site s :: rest =>
    if Glued t s then s.gluedFront t ++ (s.tailWords ++ respelled rest)
    else t.spelling :: (s.callWords ++ respelled rest)

@[simp] theorem respelled_site (s : Site) (rest : List Piece) :
    respelled (.site s :: rest) = s.callWords ++ respelled rest := by
  rw [respelled]

theorem respelled_glued {t : Token} {s : Site} (h : Glued t s) (rest : List Piece) :
    respelled (.token t :: .site s :: rest) = s.gluedFront t ++ (s.tailWords ++ respelled rest) := by
  rw [respelled, if_pos h]

theorem respelled_token {t : Token} {rest : List Piece}
    (h : ∀ s, rest.head? = some (.site s) → ¬ Glued t s) :
    respelled (.token t :: rest) = t.spelling :: respelled rest := by
  match rest with
  | [] => rw [respelled, respelled]
  | .token t' :: rest => rw [respelled]
  | .site s :: rest => rw [respelled, respelled, if_neg (h s rfl)]

/-- A token either clings to the call behind it or is a word by itself. -/
theorem respelled_cases (t : Token) (rest : List Piece) :
    (∃ s later, rest = .site s :: later ∧ Glued t s ∧
      respelled (.token t :: rest) = s.gluedFront t ++ (s.tailWords ++ respelled later)) ∨
    respelled (.token t :: rest) = t.spelling :: respelled rest := by
  by_cases h : ∃ s, rest.head? = some (.site s) ∧ Glued t s
  · obtain ⟨s, hfirst, hglued⟩ := h
    obtain ⟨later, rfl⟩ := List.head?_eq_some_iff.1 hfirst
    exact .inl ⟨s, later, rfl, hglued, respelled_glued hglued later⟩
  · exact .inr (respelled_token fun s hs hglued => h ⟨s, hs, hglued⟩)

/-- No token of these pieces clings to the call behind it. -/
def Detached (found : List Piece) : Prop :=
  ∀ before t s after, found = before ++ .token t :: .site s :: after → ¬ Glued t s

theorem detached_cons {piece : Piece} {rest : List Piece} :
    Detached (piece :: rest) ↔
      (∀ t s after, piece = .token t → rest = .site s :: after → ¬ Glued t s) ∧ Detached rest := by
  constructor
  · intro h
    refine ⟨fun t s after hpiece hrest => h [] t s after (by rw [hpiece, hrest]; rfl), ?_⟩
    intro before t s after hrest
    exact h (piece :: before) t s after (by rw [hrest]; rfl)
  · rintro ⟨hfirst, hrest⟩ before t s after heq
    cases before with
    | nil =>
      injection heq with hpiece htail
      exact hfirst t s after hpiece htail
    | cons first before =>
      injection heq with hpiece htail
      exact hrest before t s after htail

theorem detached_nil : Detached [] := by
  intro before t s after heq
  cases before <;> cases heq

/-- A token that clings is not spelled as it was. -/
theorem gluedFront_ne {t : Token} {s : Site} (h : Glued t s) (later later' : List Spelling) :
    s.gluedFront t ++ later ≠ t.spelling :: later' := by
  obtain ⟨-, d, hd, hcling⟩ := h
  obtain ⟨q, hq⟩ := List.head?_eq_some_iff.1 hd
  have hlonger (x : List Char) (hx : x ≠ []) : String.ofList (t.text.toList ++ x) ≠ t.text := by
    intro heq
    have := congrArg String.toList heq
    simp [hx] at this
  intro heq
  -- the first word is longer than the token, or half of it
  rcases hcling with hk | ⟨hk, hascii⟩ | ⟨hk, hlength, -⟩
  · simp only [Site.gluedFront, hk, List.cons_append, List.cons.injEq] at heq
    apply hlonger s.quoter.toList (by simp [hq])
    rw [String.ofList_append, String.ofList_toList, String.ofList_toList]
    exact congrArg Prod.snd heq.1
  · simp only [Site.gluedFront, hk, Site.numberFront] at heq
    split at heq
    · rw [List.singleton_append, List.cons.injEq] at heq
      exact hlonger _ (by simp) (congrArg Prod.snd heq.1)
    · rw [List.cons_append, List.cons.injEq] at heq
      have htake : s.quoter.toList.takeWhile isAscii ≠ [] := by
        rw [hq, List.takeWhile_cons_of_pos (by simpa [isAscii] using hascii)]
        simp
      exact hlonger _ htake (congrArg Prod.snd heq.1)
  · rw [← String.length_toList] at hlength
    obtain ⟨a, b, hab⟩ := List.length_eq_two.1 hlength
    simp only [Site.gluedFront, hk, hab, List.map_cons, List.cons_append, List.cons.injEq] at heq
    have hsingle := congrArg String.toList (congrArg Prod.snd heq.1)
    simp [Token.spelling, hab] at hsingle

/-- **The words are those of the tokens and the calls unless a token clings.** -/
theorem respelled_eq_iff (found : List Piece) :
    respelled found = found.flatMap Piece.words ↔ Detached found := by
  fun_induction respelled found with
  | case1 => exact ⟨fun _ => detached_nil, fun _ => rfl⟩
  | case2 s rest ih =>
    rw [detached_cons, List.flatMap_cons, Piece.words, List.append_cancel_left_eq, ih]
    simp
  | case3 t =>
    rw [detached_cons]
    simp [detached_nil, Piece.words]
  | case4 t t' rest ih =>
    rw [detached_cons, List.flatMap_cons, Piece.words, List.singleton_append, List.cons_inj_right, ih]
    simp
  | case5 t s rest hglued _ =>
    rw [detached_cons, List.flatMap_cons, Piece.words, List.singleton_append]
    constructor
    · exact fun heq => absurd heq (gluedFront_ne hglued _ _)
    · rintro ⟨hfirst, -⟩
      exact absurd hglued (hfirst t s rest rfl rfl)
  | case6 t s rest hplain ih =>
    rw [detached_cons, detached_cons, List.flatMap_cons, List.flatMap_cons, Piece.words, Piece.words,
      List.singleton_append, List.cons_inj_right, List.append_cancel_left_eq, ih]
    constructor
    · intro hrest
      refine ⟨?_, by simp, hrest⟩
      rintro t' s' after hpiece hsite
      cases hpiece
      cases hsite
      exact hplain
    · rintro ⟨-, -, hrest⟩
      exact hrest

/-! ### The words of a glued front -/

theorem isNumberPart_of_ascii {c : Char} (h : isIdentPart c = true) (hascii : isAscii c = true) :
    isNumberPart c = true := by
  rw [isAscii, beq_iff_eq, Char.utf8Size_eq_one_iff, UInt32.le_iff_toNat_le] at hascii
  have hvalue : c.val.toNat = c.toNat := rfl
  have hbyte : (127 : UInt32).toNat = 127 := rfl
  have hlow : ¬ 0x80 ≤ c.toNat := by omega
  simp only [isIdentPart, isIdentStart, Bool.or_eq_true, decide_eq_true_eq, hlow, or_false] at h
  simp only [isNumberPart, Char.isAlphanum, Bool.or_eq_true]
  tauto

theorem isIdentStart_of_not_ascii {c : Char} (h : isAscii c = false) : isIdentStart c = true := by
  rw [isAscii, beq_eq_false_iff_ne, Ne, Char.utf8Size_eq_one_iff, UInt32.le_iff_toNat_le] at h
  have hvalue : c.val.toNat = c.toNat := rfl
  have hbyte : (127 : UInt32).toNat = 127 := rfl
  have hhigh : 0x80 ≤ c.toNat := by omega
  simp [isIdentStart, hhigh]

/-- Where not all characters satisfy a test, a first one does not. -/
theorem dropWhile_of_not_all {α : Type} {p : α → Bool} {text : List α} (h : ¬ text.all p = true) :
    ∃ d more, text.dropWhile p = d :: more ∧ p d = false := by
  induction text with
  | nil => simp at h
  | cons c text ih =>
    by_cases hc : p c = true
    · rw [List.dropWhile_cons_of_pos hc]
      exact ih (by simpa [hc] using h)
    · rw [List.dropWhile_cons_of_neg hc]
      exact ⟨c, text, rfl, by simpa using hc⟩

/-- An operator of two characters, in parts. -/
theorem pair_of_lexeme {x rest : List Char} (h : lexeme (x ++ rest) = some (.operator, x.length))
    (hlength : x.length = 2) :
    ∃ a b, x = [a, b] ∧ [a, b] ∈ operators2 ∧ startsNumber (x ++ rest) = false := by
  obtain ⟨a, b, rfl⟩ := List.length_eq_two.1 hlength
  rcases lexeme_cases h with ⟨-, hk, -⟩ | ⟨-, hk, -⟩ | ⟨-, hliteral⟩ | ⟨-, -, -, hname⟩ |
    ⟨-, hnumber, -, -, hn⟩
  · simp at hk
  · simp at hk
  · simpa using literalLexeme_kind hliteral
  · simpa using nameLexeme_kind hname
  · exact ⟨a, b, rfl, ((operatorLength_eq_two_iff a b rest).1 hn.symm).2.1, hnumber⟩

/-- A number is read where one begins, as far as it goes. -/
theorem number_of_lexeme {text : List Char} {n : Nat} (h : lexeme text = some (.number, n)) :
    startsNumber text = true ∧ numberLength text = n := by
  cases text with
  | nil => simp at h
  | cons c text =>
    rcases lexeme_cases h with ⟨-, hk, -⟩ | ⟨hstart, -, hn⟩ | ⟨-, hliteral⟩ | ⟨-, -, -, hname⟩ |
      ⟨-, -, -, hk, -⟩
    · simp at hk
    · exact ⟨hstart, hn.symm⟩
    · simpa using literalLexeme_kind hliteral
    · simpa using nameLexeme_kind hname
    · simp at hk

/-- A number that begins with `x` and goes on with what follows, as far as that can go on with
it. -/
structure RunsOn (x rest : List Char) : Prop where
  starts : startsNumber (x ++ rest) = true
  length : ∃ hexadecimal, numberLength (x ++ rest) = x.length + numberTail hexadecimal rest

namespace Site

variable {s : Site}

/-- A number goes on with a word of its parts, in front of what cannot go on with it. -/
theorem words_number {x word rest : List Char} (hne : x ≠ [])
    (hword : ∀ c ∈ word, isNumberPart c = true)
    (hrest : ∀ d ∈ rest.head?, isNumberPart d = false ∧ isSign d = false)
    (h : RunsOn x (word ++ rest)) :
    Words (x ++ (word ++ rest)) [(.number, String.ofList (x ++ word))] rest := by
  obtain ⟨hstart, hexadecimal, hlength⟩ := h
  have hzero : numberTail hexadecimal rest = 0 := by
    cases rest with
    | nil => rfl
    | cons d rest => exact numberTail_eq_zero (hrest d rfl).1 hexadecimal rest
  rw [numberTail_word _ hword fun d hd => (hrest d hd).2, hzero, Nat.add_zero,
    ← List.length_append] at hlength
  rw [← List.append_assoc] at hstart hlength ⊢
  refine words_one (by simp [hne]) ?_
  obtain ⟨c, y, hx⟩ : ∃ c y, x ++ word ++ rest = c :: y :=
    List.exists_cons_of_ne_nil (by simp [hne])
  have hmarker : c ≠ '$' := by
    rintro rfl
    simp [hx, startsNumber_cons] at hstart
  rw [← hlength, hx, lexeme_cons, if_neg hmarker, if_pos (hx ▸ hstart)]

/-- A number that runs into a name of single bytes ends behind the method. -/
theorem words_numberFront_ascii {x name : List Char} (hne : x ≠ [])
    (hname : ∀ c ∈ name, isIdentPart c = true) (hall : name.all isAscii = true) (text : List Char)
    (h : RunsOn x (name ++ '.' :: (s.kind.method.toList ++ '(' :: text))) :
    Words (x ++ (name ++ '.' :: (s.kind.method.toList ++ '(' :: text)))
      [(.number, String.ofList (x ++ (name ++ '.' :: s.kind.method.toList)))] ('(' :: text) := by
  have hmethod : ∀ c ∈ s.kind.method.toList, isNumberPart c = true := by
    cases s.kind <;> decide
  have hword : ∀ c ∈ name ++ '.' :: s.kind.method.toList, isNumberPart c = true := by
    intro c hc
    rcases List.mem_append.1 hc with hc | hc
    · exact isNumberPart_of_ascii (hname c hc) (List.all_eq_true.1 hall c hc)
    · rcases List.mem_cons.1 hc with rfl | hc
      · decide
      · exact hmethod c hc
  have hsplit : name ++ '.' :: (s.kind.method.toList ++ '(' :: text) =
      (name ++ '.' :: s.kind.method.toList) ++ '(' :: text := by simp
  rw [hsplit] at h ⊢
  exact words_number hne hword (by simp; decide) h

/-- A number that runs into any other name ends at its first character of several bytes, and a name
begins there. -/
theorem words_numberFront_wide {x name : List Char} (hne : x ≠ [])
    (hname : ∀ c ∈ name, isIdentPart c = true) (hall : ¬ name.all isAscii = true) (text : List Char)
    (h : RunsOn x (name ++ '.' :: (s.kind.method.toList ++ '(' :: text))) :
    Words (x ++ (name ++ '.' :: (s.kind.method.toList ++ '(' :: text)))
      ((.number, String.ofList (x ++ name.takeWhile isAscii)) ::
        (.name, String.ofList (name.dropWhile isAscii)) :: s.methodWords) ('(' :: text) := by
  have hparts : name.takeWhile isAscii ++ name.dropWhile isAscii = name :=
    List.takeWhile_append_dropWhile
  have hword : ∀ c ∈ name.takeWhile isAscii, isNumberPart c = true := fun c hc =>
    isNumberPart_of_ascii (hname c (by rw [← hparts]; exact List.mem_append_left _ hc))
      (List.all_eq_true.1 List.all_takeWhile c hc)
  obtain ⟨d, more, hother, hd⟩ := dropWhile_of_not_all hall
  have hfirst := isIdentStart_of_not_ascii hd
  have hident : isIdentifier (name.dropWhile isAscii) = true := by
    rw [hother, isIdentifier, hfirst, Bool.true_and, List.all_eq_true]
    intro c hc
    apply hname
    rw [← hparts, hother]
    simp [hc]
  have hstop : isNumberPart d = false := by
    rw [Bool.eq_false_iff]
    intro hpart
    simp [isAscii, utf8Size_of_isNumberPart hpart] at hd
  have hsplit : name ++ '.' :: (s.kind.method.toList ++ '(' :: text) = name.takeWhile isAscii ++
      (name.dropWhile isAscii ++ '.' :: (s.kind.method.toList ++ '(' :: text)) := by
    rw [← List.append_assoc, hparts]
  rw [hsplit] at h ⊢
  exact (words_number hne hword (by simp [hother, hstop, not_sign_of_identStart d hfirst])
    h).trans (s.words_front hident text)

/-- **A number that runs into a name.** -/
theorem words_numberFront {x name : List Char} (hne : x ≠ [])
    (hname : ∀ c ∈ name, isIdentPart c = true) (text : List Char)
    (h : RunsOn x (name ++ '.' :: (s.kind.method.toList ++ '(' :: text))) :
    Words (x ++ (name ++ '.' :: (s.kind.method.toList ++ '(' :: text))) (s.numberFront x name)
      ('(' :: text) := by
  unfold numberFront
  split
  · next hall => exact words_numberFront_ascii hne hname hall text h
  · next hall => exact words_numberFront_wide hne hname hall text h

/-- A number directly before a site runs into the quoter's name. -/
theorem words_gluedNumber {x rest : List Char} {c : Char} (hsite : c = '[' ∨ c = 'w')
    (hlexeme : lexeme (x ++ c :: rest) = some (.number, x.length))
    (hquoter : isIdentifier s.quoter.toList = true) (text : List Char) :
    Words (x ++ (s.quoter.toList ++ '.' :: (s.kind.method.toList ++ '(' :: text)))
      (s.numberFront x s.quoter.toList) ('(' :: text) := by
  obtain ⟨e, y, rfl⟩ := List.exists_cons_of_ne_nil
    (List.ne_nil_of_length_pos (lexeme_length hlexeme).1)
  obtain ⟨q, name, hname⟩ := List.exists_cons_of_ne_nil (ne_nil_of_isIdentifier hquoter)
  have hident : isIdentStart q = true :=
    isIdentStart_of_isIdentifier hquoter (by rw [hname]; rfl)
  obtain ⟨hstart, hlength⟩ := number_of_lexeme hlexeme
  have hdigit : (c :: rest).head?.any Char.isDigit =
      (s.quoter.toList ++ '.' :: (s.kind.method.toList ++ '(' :: text)).head?.any Char.isDigit := by
    rw [hname]
    rcases hsite with rfl | rfl <;> simp [not_digit_of_identStart q hident]
  refine words_numberFront (by simp) (isIdentPart_of_isIdentifier hquoter) text ⟨?_, ?_⟩
  · exact startsNumber_append e y hdigit ▸ hstart
  · exact numberLength_append (by simp) (by simp [hname, not_sign_of_identStart q hident]) hlength

/-- An operator of two characters directly before a site falls apart, if the quoter's name begins
with a character of several bytes. -/
theorem words_gluedPair {x rest : List Char} {c d : Char}
    (hlexeme : lexeme (x ++ c :: rest) = some (.operator, x.length)) (hlength : x.length = 2)
    (hquoter : isIdentifier s.quoter.toList = true) (hd : d ∈ s.quoter.toList.head?)
    (hwide : d.utf8Size ≠ 1) (text : List Char) :
    Words (x ++ (s.quoter.toList ++ '.' :: (s.kind.method.toList ++ '(' :: text)))
      (x.map (fun c => (.operator, String.ofList [c])) ++ s.frontWords) ('(' :: text) := by
  obtain ⟨name, hname⟩ := List.head?_eq_some_iff.1 hd
  have hident := isIdentStart_of_isIdentifier hquoter hd
  obtain ⟨a, b, rfl, hmem, hnumber⟩ := pair_of_lexeme hlexeme hlength
  have ha : a ∈ operators1 := operators2_parts _ hmem a (by simp)
  have hb : b ∈ operators1 := operators2_parts _ hmem b (by simp)
  -- the two characters are an operator only in front of a single byte
  have hfirst (more : List Char) : lexeme (a :: b :: d :: more) = some (.operator, 1) := by
    have hone : operatorLength (a :: b :: d :: more) = 1 := by
      rw [operatorLength_eq_one_iff]
      refine ⟨not_operators3_of_identStart hident (by simp), fun h => hwide ?_, ha⟩
      exact h.2 d rfl
    rw [List.cons_append, startsNumber_cons] at hnumber
    rw [lexeme_operator ha, hone]
    rw [startsNumber_cons]
    exact hnumber
  have hwords := s.words_front hquoter text
  rw [hname, List.cons_append] at hwords
  have hall := (words_one (x := [a]) (by simp) (hfirst _)).trans
    ((words_one (x := [b]) (by simp) (lexeme_before_name hb hident _)).trans hwords)
  rw [hname, List.cons_append]
  rw [← hname, String.ofList_toList] at hall
  exact hall

/-- **The words that a token comes to that clings.** -/
theorem words_gluedFront {t : Token} {rest : List Char} {c d : Char} (hsite : c = '[' ∨ c = 'w')
    (hlexeme : lexeme (t.text.toList ++ c :: rest) = some (t.kind, t.text.toList.length))
    (hquoter : isIdentifier s.quoter.toList = true) (hd : d ∈ s.quoter.toList.head?)
    (hcling : Clings t.kind t.text.length d) (text : List Char) :
    Words (t.text.toList ++ (s.quoter.toList ++ '.' :: (s.kind.method.toList ++ '(' :: text)))
      (s.gluedFront t) ('(' :: text) := by
  rcases hcling with hk | ⟨hk, -⟩ | ⟨hk, hlength, hwide⟩
  · rw [hk] at hlexeme
    have hwords := s.words_front
      (isIdentifier_append (isIdentifier_of_lexeme hlexeme) hquoter) text
    have htext : t.text ++ s.quoter = String.ofList (t.text.toList ++ s.quoter.toList) := by
      rw [String.ofList_append, String.ofList_toList, String.ofList_toList]
    rw [gluedFront, hk, htext, ← List.append_assoc]
    exact hwords
  · rw [hk] at hlexeme
    simp only [gluedFront, hk]
    exact words_gluedNumber hsite hlexeme hquoter text
  · rw [hk] at hlexeme
    rw [← String.length_toList] at hlength
    simp only [gluedFront, hk]
    exact words_gluedPair hlexeme hlength hquoter hd hwide text

/-! ### A lost mark -/

/-- The front of a call whose first character is taken for a byte order mark. -/
def lostFront (s : Site) : List Spelling :=
  match s.quoter.toList.tail with
  | [] => s.methodWords
  | c :: name =>
    if c.isDigit then s.numberFront [c] name else (.name, String.ofList (c :: name)) :: s.methodWords

/-- **A name that has lost its first character** may be gone, or begin with a digit. -/
theorem words_lostFront (hquoter : isIdentifier s.quoter.toList = true) (text : List Char) :
    Words (s.quoter.toList.tail ++ '.' :: (s.kind.method.toList ++ '(' :: text)) s.lostFront
      ('(' :: text) := by
  have hpart : ∀ c ∈ s.quoter.toList.tail, isIdentPart c = true := fun c hc =>
    isIdentPart_of_isIdentifier hquoter c (List.mem_of_mem_tail hc)
  unfold lostFront
  split
  · next hnil =>
    rw [hnil]
    exact s.words_method text
  · next c name hcons =>
    rw [hcons] at hpart ⊢
    have hname : ∀ d ∈ name, isIdentPart d = true := fun d hd =>
      hpart d (List.mem_cons_of_mem c hd)
    split
    · next hdigit =>
      have hone : numberLength ([c] ++ []) = [c].length := by
        simp [numberLength, numberTail_singleton, isNumberPart, Char.isAlphanum, hdigit]
      refine words_numberFront (by simp) hname text
        ⟨by simp [startsNumber_cons, hdigit], numberLength_append (by simp) ?_ hone⟩
      intro d hd hsign
      -- what follows the digit is a letter of the name, or the point
      have hplain : isSign d = false := by
        cases name with
        | nil =>
          simp only [List.nil_append, List.head?_cons, Option.mem_some_iff] at hd
          subst hd
          decide
        | cons e name =>
          simp only [List.cons_append, List.head?_cons, Option.mem_some_iff] at hd
          subst hd
          exact not_sign_of_identPart (hname _ List.mem_cons_self)
      rw [hplain] at hsign
      simp at hsign
    · next hdigit =>
      have hident : isIdentifier (c :: name) = true := by
        have hc := hpart c List.mem_cons_self
        rw [isIdentPart, Bool.or_eq_true] at hc
        rw [isIdentifier, hc.resolve_right hdigit, Bool.true_and, List.all_eq_true]
        exact hname
      exact s.words_front hident text

theorem lostFront_ne_nil (s : Site) : s.lostFront ≠ [] := by
  unfold lostFront
  split
  · simp [methodWords]
  split
  · exact s.numberFront_ne_nil _ _
  · simp

/-- A front that has lost its first character is not the front of the call. -/
theorem lostFront_ne (hne : s.quoter.toList ≠ []) (later later' : List Spelling) :
    s.lostFront ++ later ≠ s.frontWords ++ later' := by
  intro heq
  unfold lostFront frontWords at heq
  split at heq
  · simp [methodWords] at heq
  · next c name hcons =>
    split at heq
    · unfold numberFront at heq
      split at heq <;> simp at heq
    · rw [List.cons_append, List.cons_append] at heq
      injection heq with hfirst
      have hsame : c :: name = s.quoter.toList := by
        have htext : String.ofList (c :: name) = s.quoter := congrArg Prod.snd hfirst
        rw [← htext, String.toList_ofList]
      have hlength := congrArg List.length hcons
      rw [hsame, List.length_tail] at hlength
      have := List.length_pos_iff.2 hne
      omega

/-! ### Brackets -/

/-- No front of a call opens or closes a bracket. -/
theorem nest_frontWords (name : Spelling) (hname : name.1 ≠ .operator) (depth : Nat) :
    (name :: s.methodWords).foldl nestWord depth = depth := by
  rw [List.foldl_cons, nestWord_of_ne hname]
  rfl

theorem nest_numberFront (number name : List Char) (depth : Nat) :
    (s.numberFront number name).foldl nestWord depth = depth := by
  unfold numberFront
  split
  · rfl
  · rw [List.foldl_cons]
    exact nest_frontWords _ (by simp) _

theorem nest_lostFront (depth : Nat) : s.lostFront.foldl nestWord depth = depth := by
  unfold lostFront
  split
  · rfl
  split
  · exact nest_numberFront _ _ _
  · exact nest_frontWords _ (by simp) _

/-- No operator of two characters holds a bracket. -/
theorem not_bracket_of_pair {op : List Char} (h : op ∈ operators2) : ∀ c ∈ op, c ∉ brackets := by
  have hplain : ∀ op ∈ operators2, ∀ c ∈ op, c ∉ brackets := by decide
  exact hplain op h

/-- A token that clings opens and closes no bracket. -/
theorem nestWord_of_clings {t : Token} {rest : List Char} {d : Char}
    (hlexeme : lexeme (t.text.toList ++ rest) = some (t.kind, t.text.toList.length))
    (hcling : Clings t.kind t.text.length d) (depth : Nat) : nestWord depth t.spelling = depth := by
  rcases hcling with hk | ⟨hk, -⟩ | ⟨hk, hlength, -⟩
  · exact nestWord_of_ne (by simp [Token.spelling, hk]) depth
  · exact nestWord_of_ne (by simp [Token.spelling, hk]) depth
  · rw [hk] at hlexeme
    rw [← String.length_toList] at hlength
    obtain ⟨a, b, hab, hmem, -⟩ := pair_of_lexeme hlexeme hlength
    rw [Token.spelling, hk, nestWord, hab]
    exact nest_of_not_bracket (not_bracket_of_pair hmem a (by simp)) depth

/-- Nor does it together with the front of a call. -/
theorem nest_gluedFront {t : Token} {rest : List Char} {d : Char}
    (hlexeme : lexeme (t.text.toList ++ rest) = some (t.kind, t.text.toList.length))
    (hcling : Clings t.kind t.text.length d) (depth : Nat) :
    (s.gluedFront t).foldl nestWord depth = depth := by
  rcases hcling with hk | ⟨hk, -⟩ | ⟨hk, hlength, -⟩
  · simp only [gluedFront, hk]
    exact nest_frontWords _ (by simp) _
  · simp only [gluedFront, hk]
    exact nest_numberFront _ _ _
  · rw [hk] at hlexeme
    rw [← String.length_toList] at hlength
    obtain ⟨a, b, hab, hmem, -⟩ := pair_of_lexeme hlexeme hlength
    have hsingle {c : Char} (hc : c ∈ [a, b]) (depth : Nat) :
        nestWord depth (.operator, String.ofList [c]) = depth := by
      rw [nestWord, String.toList_ofList]
      exact nest_of_not_bracket (not_bracket_of_pair hmem c hc) depth
    simp only [gluedFront, hk, hab, List.map_cons, List.map_nil, List.cons_append, List.nil_append,
      List.foldl_cons]
    rw [hsingle (by simp), hsingle (by simp)]
    exact nest_frontWords _ (by simp) _

end Site

end Quasiquote
