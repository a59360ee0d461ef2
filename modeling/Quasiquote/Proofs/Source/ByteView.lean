import Quasiquote.Proofs.Text.Utf8
import Quasiquote.Source.ByteReader

/-!
# Views of a text

A view whose bytes are those of a text, at the beginning of one of its characters. Looking there shows the
leading byte of that character, moving on by whole characters leads to the beginning of another one, and
cutting between two such places gives the characters between them.

## Main Definitions

* `ByteView.between` — the view between two texts
* `ByteView.front` — what a view sees of the text ahead

## Main Statements

* `ByteView.slice_split`, `ByteView.slice_window` — cutting a text at offsets
* `ByteView.eatWhile?_between` — a class of characters is passed over as a class of bytes
* `ByteView.findFrom_encode` — a text is found where its bytes are
* `ByteView.measureIndent_split`, `ByteView.lineStartOf_split` — indentation and lines

## Design Notes

A function that only reads a view takes an equation for its bytes, since it may read in front of the place
of the view or behind it. A function that moves a view takes a view between two texts to another one.
-/

namespace Quasiquote

open Utf8 (encode IsAscii Uniform lead followers)

theorem length_encode (text : List Char) : (encode text).length = byteLength text := by
  induction text with
  | nil => rfl
  | cons c rest ih =>
    rw [encode, List.flatMap_cons, List.length_append, String.length_utf8EncodeChar,
      byteLength_cons, ← ih]
    rfl

theorem toUTF8_ofList (text : List Char) :
    (String.ofList text).toUTF8 = ⟨(encode text).toArray⟩ :=
  ByteArray.ext List.data_toByteArray

namespace Scan

theorem isAscii_of_endsLine {c : Char} (h : endsLine c = true) : IsAscii c :=
  Utf8.isAscii_of_beq_or (by decide) (by decide) h

theorem uniform_endsLine : Uniform endsLine := Utf8.uniform_of_ascii fun _ => isAscii_of_endsLine

end Scan

namespace ByteView

variable {v : ByteView} {mark : Nat} {before ahead : List Char}

/-- The bytes of a text spell the text. -/
theorem text_encode (text : List Char) : ByteView.text (encode text) = String.ofList text := by
  have hvalid : (String.ofList text).toUTF8.IsValidUTF8 := (String.ofList text).isValidUTF8
  rw [ByteView.text, ← toUTF8_ofList, String.fromUTF8?, dif_pos hvalid]
  rfl

/-- The view between two texts. -/
def between (mark : Nat) (before ahead : List Char) : ByteView :=
  { bytes := encode (before ++ ahead), markBytes := mark, pos := byteLength before }

theorem ofSource_eq (source : String) :
    ofSource source = between (markLength source.toList) [] (stripMark source.toList) := by
  rw [ofSource, toUTF8_ofList]
  rfl

/-! ### Looking -/

/-- What a view sees of the text ahead: the byte that its first character begins with, or the zero byte
behind the source. -/
def front : List Char → Char
  | [] => '\x00'
  | c :: _ => .ofUInt8 (lead c)

@[simp] theorem front_nil : front [] = '\x00' := rfl

/-- ASCII characters are seen as they are. -/
theorem front_cons_eq_iff {a c : Char} {rest : List Char} (ha : IsAscii a) :
    front (c :: rest) = a ↔ c = a := Utf8.ofUInt8_lead_eq_iff ha

theorem front_ascii {c : Char} {rest : List Char} (hc : IsAscii c) : front (c :: rest) = c :=
  Utf8.ofUInt8_lead_ascii hc

theorem front_uniform {p : Char → Bool} (h : Uniform p) (c : Char) (rest : List Char) :
    p (front (c :: rest)) = p c := h.lead c

/-- A class that the zero byte does not belong to is told by what a view sees. -/
theorem front_any {p : Char → Bool} (h : Uniform p) (hzero : p '\x00' = false) (text : List Char) :
    p (front text) = text.head?.any p := by
  cases text with
  | nil => exact hzero
  | cons c rest => exact front_uniform h c rest

/-- A character that no zero byte stands for is seen only if it is there. -/
theorem front_eq_iff {a : Char} (ha : IsAscii a) (hzero : a ≠ '\x00') {text : List Char} :
    front text = a ↔ ∃ rest, text = a :: rest := by
  cases text with
  | nil => simp [hzero.symm]
  | cons c rest =>
    rw [front_cons_eq_iff ha]
    simp

theorem byteAt_split (h : v.bytes = encode (before ++ ahead)) :
    v.byteAt (byteLength before) = (encode ahead).headD 0 := by
  rw [byteAt, h, Utf8.encode_append, List.getD_eq_getElem?_getD,
    List.getElem?_append_right (Nat.le_of_eq (length_encode before)), length_encode, Nat.sub_self,
    List.headD_eq_head?_getD, List.head?_eq_getElem?]

theorem charAt_split (h : v.bytes = encode (before ++ ahead)) :
    v.charAt (byteLength before) = front ahead := by
  rw [charAt, byteAt_split h]
  cases ahead with
  | nil => rfl
  | cons c rest =>
    rw [Utf8.encode_cons]
    rfl

theorem charAt_between (stretch : List Char) :
    (between mark before (stretch ++ ahead)).charAt (byteLength before + byteLength stretch) =
      front ahead := by
  rw [← byteLength_append]
  exact charAt_split (by rw [between, List.append_assoc])

theorem size_split (h : v.bytes = encode (before ++ ahead)) :
    v.size = byteLength before + byteLength ahead := by
  rw [size, h, length_encode, byteLength_append]

theorem size_between : (between mark before ahead).size = byteLength before + byteLength ahead := size_split rfl

theorem pos_le_size : (between mark before ahead).pos ≤ (between mark before ahead).size := by
  rw [size_between]
  exact Nat.le_add_right _ _

theorem lt_paddedSize (v : ByteView) : v.size < v.paddedSize := by
  unfold paddedSize
  omega

/-- A view of a text is inside the buffer. -/
theorem charHere?_between : (between mark before ahead).charHere? = some (front ahead) := by
  have hinside : (between mark before ahead).pos < (between mark before ahead).paddedSize :=
    Nat.lt_of_le_of_lt pos_le_size (lt_paddedSize _)
  rw [charHere?, if_pos hinside]
  exact congrArg some (charAt_split rfl)

/-- **A zero byte of the source is not the end of the source.** -/
theorem endsHere_between : (between mark before ahead).endsHere (front ahead) = ahead.isEmpty := by
  rw [endsHere, size_between]
  cases ahead with
  | nil => simp [between]
  | cons c rest =>
    have hpos := c.utf8Size_pos
    have hinside : ¬ byteLength before + byteLength (c :: rest) ≤ (between mark before (c :: rest)).pos := by
      rw [byteLength_cons]
      show ¬ byteLength before + (c.utf8Size + byteLength rest) ≤ byteLength before
      omega
    rw [decide_eq_false hinside, Bool.and_false, List.isEmpty_cons]

theorem isBreakAt_split (h : v.bytes = encode (before ++ ahead)) :
    v.isBreakAt (byteLength before) = true ↔ 0 < Scan.breakLength ahead := by
  rw [isBreakAt, charAt_split h]
  cases ahead with
  | nil => simp [Scan.breakLength]
  | cons c rest =>
    by_cases hreturn : c = '\r'
    · subst hreturn
      have hnext : v.charAt (byteLength before + 1) = front rest := by
        have hbytes : v.bytes = encode ((before ++ ['\r']) ++ rest) := by simpa using h
        have hsplit := charAt_split hbytes
        rwa [byteLength_append] at hsplit
      have hfeed : front ('\r' :: rest) ≠ '\n' := by
        rw [Ne, front_cons_eq_iff (by decide)]
        decide
      rw [hnext, beq_eq_false_iff_ne.2 hfeed, front_ascii (by decide)]
      cases rest with
      | nil => simp [Scan.breakLength]
      | cons d rest =>
        simp only [beq_self_eq_true, Bool.true_and, Bool.false_or, beq_iff_eq]
        rw [front_cons_eq_iff (by decide)]
        unfold Scan.breakLength
        split <;> simp_all
    · have hne : front (c :: rest) ≠ '\r' := by
        rwa [Ne, front_cons_eq_iff (by decide)]
      rw [beq_eq_false_iff_ne.2 hne, Bool.false_and, Bool.or_false, beq_iff_eq,
        front_cons_eq_iff (by decide)]
      unfold Scan.breakLength
      split <;> simp_all

/-! ### Moving -/

theorem advance_between (mark : Nat) (before stretch ahead : List Char) :
    (between mark before (stretch ++ ahead)).advance (byteLength stretch) =
      between mark (before ++ stretch) ahead := by
  simp [between, advance]

theorem advance_take (mark : Nat) (before ahead : List Char) (n : Nat) :
    (between mark before ahead).advance (byteLength (ahead.take n)) =
      between mark (before ++ ahead.take n) (ahead.drop n) := by
  have hmoved := advance_between mark before (ahead.take n) (ahead.drop n)
  rwa [List.take_append_drop] at hmoved

theorem advance_ascii {c : Char} (hc : IsAscii c) :
    (between mark before (c :: ahead)).advance 1 = between mark (before ++ [c]) ahead := by
  have hsize : byteLength [c] = 1 := Utf8.utf8Size_ascii hc
  rw [← hsize]
  exact advance_between mark before [c] ahead

/-- **The leading byte tells how far the next character is.** -/
theorem characterWidth_lead (c : Char) : characterWidth (lead c) = c.utf8Size := by
  have hle (b : UInt8) (n : Nat) (hn : n < 256) : UInt8.ofNat n ≤ b ↔ n ≤ b.toNat := by
    rw [UInt8.le_iff_toNat_le, UInt8.toNat_ofNat_of_lt' hn]
  have hge (b : UInt8) (n : Nat) (hn : n < 256) : b ≤ UInt8.ofNat n ↔ b.toNat ≤ n := by
    rw [UInt8.le_iff_toNat_le, UInt8.toNat_ofNat_of_lt' hn]
  have hwidth : characterWidth (lead c) =
      if 0xc0 ≤ (lead c).toNat ∧ (lead c).toNat ≤ 0xdf then 2
      else if 0xe0 ≤ (lead c).toNat ∧ (lead c).toNat ≤ 0xef then 3
      else if 0xf0 ≤ (lead c).toNat ∧ (lead c).toNat ≤ 0xf7 then 4
      else 1 := rfl
  rw [hwidth]
  rcases Utf8.lead_cases c with ⟨hc, hlead, hsize⟩ | ⟨-, hlow, hhigh, hsize⟩ | ⟨-, hlow, hhigh, hsize⟩ |
    ⟨-, hlow, hhigh, hsize⟩
  · have hsmall : c.toNat < 0x80 := hc
    rw [if_neg (by omega), if_neg (by omega), if_neg (by omega), hsize]
  · rw [if_pos (by omega), hsize]
  · rw [if_neg (by omega), if_pos (by omega), hsize]
  · rw [if_neg (by omega), if_neg (by omega), if_pos (by omega), hsize]

theorem current_between (c : Char) : (between mark before (c :: ahead)).current = lead c := by
  have hbytes : (between mark before (c :: ahead)).bytes = encode (before ++ c :: ahead) := rfl
  have hbyte := byteAt_split hbytes
  rwa [Utf8.encode_cons] at hbyte

theorem advanceCharacter_between (c : Char) :
    (between mark before (c :: ahead)).advanceCharacter = between mark (before ++ [c]) ahead := by
  rw [advanceCharacter, current_between, characterWidth_lead]
  exact advance_between mark before [c] ahead

/-- Behind a line break. -/
theorem eatBreak?_between (h : 0 < Scan.breakLength ahead) :
    (between mark before ahead).eatBreak? =
      some (between mark (before ++ ahead.take (Scan.breakLength ahead))
        (ahead.drop (Scan.breakLength ahead))) := by
  unfold Scan.breakLength at h ⊢
  split at h
  · next rest =>
    simp [eatBreak?, charHere?_between, front_ascii (c := '\n') (by decide),
      advance_ascii (c := '\n') (by decide)]
  · next rest =>
    simp [eatBreak?, charHere?_between, front_ascii (c := '\r') (by decide), advance_ascii (c := '\r') (by decide),
      front_ascii (c := '\n') (by decide), advance_ascii (c := '\n') (by decide)]
  · simp at h

theorem eatWhile?_eq {p : Char → Bool} {c : Char} (h : v.charHere? = some c) :
    v.eatWhile? p = if p c then (v.advance 1).eatWhile? p else some v := by
  rw [eatWhile?]
  split
  · next hnone => rw [h] at hnone; cases hnone
  · next d hd =>
    rw [h] at hd
    cases hd
    rfl

/-- Bytes of the class are passed over. -/
theorem eatWhile?_run {p : Char → Bool} {run rest : List UInt8} (hrun : ∀ b ∈ run, p (.ofUInt8 b) = true)
    (h : v.bytes.drop v.pos = run ++ rest) : v.eatWhile? p = (v.advance run.length).eatWhile? p := by
  induction run generalizing v with
  | nil => rfl
  | cons b run ih =>
    rw [List.forall_mem_cons] at hrun
    have hlt : v.pos < v.size := by
      have hlength := congrArg List.length h
      rw [List.length_drop, List.cons_append, List.length_cons] at hlength
      unfold size
      omega
    have hbyte : v.charAt v.pos = .ofUInt8 b := by
      have hget := congrArg (·[0]?) h
      rw [List.getElem?_drop, Nat.add_zero] at hget
      rw [charAt, byteAt, List.getD_eq_getElem?_getD, hget]
      rfl
    have hhere : v.charHere? = some (.ofUInt8 b) := by
      rw [charHere?, if_pos (Nat.lt_trans hlt (lt_paddedSize v)), hbyte]
    have hdrop : (v.advance 1).bytes.drop (v.advance 1).pos = run ++ rest := by
      show v.bytes.drop (v.pos + 1) = run ++ rest
      rw [← List.drop_drop, h]
      rfl
    rw [eatWhile?_eq hhere, hrun.1, if_pos rfl, ih hrun.2 hdrop, advance_advance, List.length_cons,
      Nat.add_comm]

theorem drop_between : (between mark before ahead).bytes.drop (between mark before ahead).pos = encode ahead := by
  rw [between, Utf8.encode_append, ← length_encode before, List.drop_left]

/-- **A class of characters is passed over as a class of bytes,** unless the zero byte belongs to it. -/
theorem eatWhile?_between {p : Char → Bool} (hp : Uniform p) (hzero : p '\x00' = false) :
    (between mark before ahead).eatWhile? p =
      some (between mark (before ++ ahead.takeWhile p) (ahead.dropWhile p)) := by
  induction ahead generalizing before with
  | nil =>
    rw [eatWhile?_eq charHere?_between, front_nil, hzero, List.takeWhile_nil, List.append_nil]
    rfl
  | cons c rest ih =>
    by_cases hc : p c = true
    · have hrun : ∀ b ∈ String.utf8EncodeChar c, p (.ofUInt8 b) = true := by
        intro b hb
        rwa [hp.byte hb]
      have hmoved := advance_between mark before [c] rest
      rw [eatWhile?_run hrun (drop_between.trans (Utf8.encode_char c rest)), String.length_utf8EncodeChar]
      rw [List.singleton_append, byteLength_cons, byteLength_nil, Nat.add_zero] at hmoved
      rw [hmoved, ih]
      simp [hc]
    · have hstop : p (front (c :: rest)) = false := by
        rw [front_uniform hp]
        simpa using hc
      rw [eatWhile?_eq charHere?_between, hstop]
      simp [hc]

/-! ### Cutting -/

/-- **Cutting a text at the ends of a stretch gives the stretch.** -/
theorem slice_split {stretch after : List Char} (h : v.bytes = encode (before ++ (stretch ++ after))) :
    v.slice (byteLength before) (byteLength before + byteLength stretch) = String.ofList stretch := by
  have hsize := size_split h
  rw [byteLength_append] at hsize
  have hstop : min (byteLength before + byteLength stretch) v.size =
      byteLength before + byteLength stretch := by omega
  have hstart : min (byteLength before) (byteLength before + byteLength stretch) =
      byteLength before := by omega
  simp only [slice, hstop, hstart]
  rw [h, Utf8.encode_append, Utf8.encode_append, ← length_encode before, List.drop_left,
    Nat.add_sub_cancel_left, ← length_encode stretch, List.take_left, text_encode]

theorem slice?_split {stretch after : List Char} (h : v.bytes = encode (before ++ (stretch ++ after))) :
    v.slice? (byteLength before) (byteLength before + byteLength stretch) =
      some (String.ofList stretch) := by
  rw [slice?, if_pos (Nat.le_add_right _ _), slice_split h]

/-- The characters of a window are those whose bytes fill it. -/
theorem window_eq_some {text x : List Char} {bytes : Nat} (h : x <+: text)
    (hlength : byteLength x = min bytes (byteLength text)) : Scan.window bytes text = some x := by
  induction x generalizing text bytes with
  | nil =>
    cases text with
    | nil => cases bytes <;> rfl
    | cons c text =>
      have hpos := c.utf8Size_pos
      rw [byteLength_nil, byteLength_cons] at hlength
      obtain rfl : bytes = 0 := by omega
      rfl
  | cons c x ih =>
    obtain ⟨after, rfl⟩ := h
    rw [List.cons_append, byteLength_cons, byteLength_cons] at hlength
    have hpos := c.utf8Size_pos
    obtain ⟨bytes, rfl⟩ : ∃ n, bytes = n + 1 := ⟨bytes - 1, by omega⟩
    have hless : byteLength x = min (bytes + 1 - c.utf8Size) (byteLength (x ++ after)) := by omega
    have hrest := ih (List.prefix_append x after) hless
    rw [List.cons_append, Scan.window, if_pos (by omega), hrest]
    rfl

/-- Characters that fill a window stand at the beginning of the text. -/
theorem window_spec {text x : List Char} {bytes : Nat} (h : Scan.window bytes text = some x) :
    x <+: text ∧ byteLength x = min bytes (byteLength text) := by
  induction text generalizing bytes x with
  | nil =>
    cases bytes <;> cases h <;> simp
  | cons c text ih =>
    cases bytes with
    | zero =>
      cases h
      simp
    | succ bytes =>
      rw [Scan.window] at h
      split at h
      · obtain ⟨y, hy, rfl⟩ := Option.map_eq_some_iff.1 h
        obtain ⟨hbegins, hlength⟩ := ih hy
        refine ⟨(List.cons_prefix_cons).2 ⟨rfl, hbegins⟩, ?_⟩
        rw [byteLength_cons, byteLength_cons, hlength]
        omega
      · cases h

/-- The bytes of a string are those of its characters. -/
theorem toUTF8_eq (text : String) : text.toUTF8.data.toList = encode text.toList := by
  rw [← String.ofList_toList (s := text), toUTF8_ofList, String.toList_ofList]

/-- **A window of bytes shows whole characters or nothing.** -/
theorem text_window (text : List Char) (bytes : Nat) :
    ByteView.text ((encode text).take bytes) = String.ofList ((Scan.window bytes text).getD []) := by
  cases hwindow : Scan.window bytes text with
  | some x =>
    obtain ⟨⟨after, rfl⟩, hlength⟩ := window_spec hwindow
    have htake : (encode (x ++ after)).take bytes = encode x := by
      rw [List.take_eq_take_min, length_encode, ← hlength, Utf8.encode_append, ← length_encode,
        List.take_left]
    rw [htake, text_encode]
    rfl
  | none =>
    rw [ByteView.text]
    cases hspelt : String.fromUTF8? ⟨((encode text).take bytes).toArray⟩ with
    | none => rfl
    | some s =>
      -- a string with these bytes would be characters that fill the window
      exfalso
      have hbytes : encode s.toList = (encode text).take bytes := by
        rw [← toUTF8_eq]
        unfold String.fromUTF8? at hspelt
        split at hspelt
        · cases hspelt
          rfl
        · cases hspelt
      have hbegins : s.toList <+: text := by
        rw [← Utf8.encode_prefix_iff, hbytes]
        exact List.take_prefix bytes _
      have hlength : byteLength s.toList = min bytes (byteLength text) := by
        rw [← length_encode, hbytes, List.length_take, length_encode]
      rw [window_eq_some hbegins hlength] at hwindow
      cases hwindow

theorem slice_window (h : v.bytes = encode (before ++ ahead)) (bytes : Nat) :
    v.slice (byteLength before) (byteLength before + bytes) =
      String.ofList ((Scan.window bytes ahead).getD []) := by
  have hsize := size_split h
  have hstart : min (byteLength before) (min (byteLength before + bytes) v.size) = byteLength before := by
    omega
  have hlength : min (byteLength before + bytes) v.size - byteLength before =
      min bytes (encode ahead).length := by
    rw [length_encode]
    omega
  simp only [slice, hstart, hlength]
  rw [h, Utf8.encode_append, ← length_encode before, List.drop_left, ← List.take_eq_take_min, text_window]

theorem slice?_window (h : v.bytes = encode (before ++ ahead)) (bytes : Nat) :
    v.slice? (byteLength before) (byteLength before + bytes) =
      some (String.ofList ((Scan.window bytes ahead).getD [])) := by
  rw [slice?, if_pos (Nat.le_add_right _ _), slice_window h]

/-! ### Lines -/

theorem takeWhile_encode {p : Char → Bool} (hp : Uniform p) (text : List Char) :
    (encode text).takeWhile (fun b => p (.ofUInt8 b)) = encode (text.takeWhile p) := by
  induction text with
  | nil => rfl
  | cons c rest ih =>
    rw [List.takeWhile_cons, Utf8.encode_char]
    split
    · next hc =>
      rw [List.takeWhile_append_of_pos fun b hb => (hp.byte hb).trans hc, ih]
      rfl
    · next hc =>
      rw [← Utf8.encode_char, Utf8.encode_cons, List.takeWhile_cons, hp.lead, if_neg hc]
      rfl

/-- The same from behind. -/
theorem takeWhile_reverse_encode {p : Char → Bool} (hp : Uniform p) (text : List Char) :
    (encode text.reverse).reverse.takeWhile (fun b => p (.ofUInt8 b)) =
      (encode (text.takeWhile p).reverse).reverse := by
  induction text with
  | nil => rfl
  | cons c rest ih =>
    have hencode : (encode (c :: rest).reverse).reverse =
        (String.utf8EncodeChar c).reverse ++ (encode rest.reverse).reverse := by
      rw [List.reverse_cons, Utf8.encode_append, List.reverse_append, Utf8.encode_char, Utf8.encode_nil,
        List.append_nil]
    rw [hencode, List.takeWhile_cons]
    split
    · next hc =>
      have hall : ∀ b ∈ (String.utf8EncodeChar c).reverse, p (.ofUInt8 b) = true := by
        intro b hb
        rwa [hp.byte (List.mem_reverse.1 hb)]
      rw [List.takeWhile_append_of_pos hall, ih, List.reverse_cons, Utf8.encode_append, List.reverse_append,
        Utf8.encode_char, Utf8.encode_nil, List.append_nil]
    · next hc =>
      have hne : (String.utf8EncodeChar c).reverse ≠ [] := by
        rw [Ne, List.reverse_eq_nil_iff]
        exact String.utf8EncodeChar_ne_nil
      obtain ⟨b, bytes, hbytes⟩ := List.exists_cons_of_ne_nil hne
      have hb : ¬ p (.ofUInt8 b) = true := by
        rwa [hp.byte (List.mem_reverse.1 (hbytes ▸ List.mem_cons_self))]
      rw [hbytes, List.cons_append, List.takeWhile_cons, if_neg hb]
      rfl

theorem advanceLine?_between :
    (between mark before ahead).advanceLine? =
      some (between mark (before ++ ahead.takeWhile fun c => !Scan.endsLine c)
        (ahead.dropWhile fun c => !Scan.endsLine c)) := by
  have hbyte (b : UInt8) : (!(b == 0x0a || b == 0x0d)) = !Scan.endsLine (.ofUInt8 b) := by
    have hfeed : (Char.ofUInt8 b == '\n') = (b == 0x0a) :=
      decide_eq_decide.2 (Utf8.ofUInt8_inj (d := 0x0a))
    have hreturn : (Char.ofUInt8 b == '\r') = (b == 0x0d) :=
      decide_eq_decide.2 (Utf8.ofUInt8_inj (d := 0x0d))
    rw [Scan.endsLine, hfeed, hreturn]
  have hmoved := advance_between mark before (ahead.takeWhile fun c => !Scan.endsLine c)
    (ahead.dropWhile fun c => !Scan.endsLine c)
  rw [List.takeWhile_append_dropWhile] at hmoved
  rw [advanceLine?, if_pos pos_le_size, advanceLine, advanceWhile, drop_between]
  simp only [hbyte]
  rw [takeWhile_encode Scan.uniform_endsLine.not, length_encode, hmoved]

/-- The byte of a line feed is found by looking for the character. -/
theorem ne_feed_iff (b : UInt8) : b ≠ 0x0a ↔ Char.ofUInt8 b ≠ '\n' :=
  not_congr (Utf8.ofUInt8_inj (d := 0x0a)).symm

theorem uniform_feed : Uniform fun c => decide (c ≠ '\n') :=
  Utf8.uniform_of_wide fun c hc => by
    rw [decide_eq_true_iff]
    rintro rfl
    exact hc (by decide)

theorem byteLength_firstLine (text : List Char) :
    byteLength (Text.firstLine text) =
      min (byteLength (text.takeWhile (· ≠ '\n')) + 1) (byteLength text) := by
  induction text with
  | nil => rfl
  | cons c rest ih =>
    rw [Text.firstLine]
    split
    · next hc =>
      subst hc
      have hsize : '\n'.utf8Size = 1 := rfl
      simp [hsize]
    · next hc =>
      rw [byteLength_cons, ih, List.takeWhile_cons, if_pos (by simpa using hc), byteLength_cons,
        byteLength_cons]
      omega

theorem lineEndFrom_split (h : v.bytes = encode (before ++ ahead)) :
    v.lineEndFrom (byteLength before) = byteLength before + byteLength (Text.firstLine ahead) := by
  have hsize := size_split h
  have hstart : min (byteLength before) v.size = byteLength before := by omega
  have hline : ((encode ahead).takeWhile (· ≠ 0x0a)).length =
      byteLength (ahead.takeWhile (· ≠ '\n')) := by
    simp only [ne_feed_iff]
    rw [takeWhile_encode uniform_feed, length_encode]
  simp only [lineEndFrom, hstart]
  rw [h, Utf8.encode_append, ← length_encode before, List.drop_left, hline, length_encode, hsize,
    byteLength_firstLine]
  omega

theorem lineStartOf_split {behind : List Char} (h : v.bytes = encode (behind.reverse ++ ahead)) :
    v.lineStartOf (byteLength behind) = byteLength (behind.dropWhile (· ≠ '\n')) := by
  have hsize := size_split h
  rw [byteLength_reverse] at hsize
  have hstop : min (byteLength behind) v.size = (encode behind.reverse).length := by
    rw [length_encode, byteLength_reverse]
    omega
  have hline : ((encode behind.reverse).reverse.takeWhile (· ≠ 0x0a)).length =
      byteLength (behind.takeWhile (· ≠ '\n')) := by
    simp only [ne_feed_iff]
    rw [takeWhile_reverse_encode uniform_feed, List.length_reverse, length_encode, byteLength_reverse]
  have hall : byteLength behind =
      byteLength (behind.takeWhile (· ≠ '\n')) + byteLength (behind.dropWhile (· ≠ '\n')) := by
    rw [← byteLength_append, List.takeWhile_append_dropWhile]
  simp only [lineStartOf, hstop]
  rw [h, Utf8.encode_append, List.take_left, hline, length_encode, byteLength_reverse]
  omega

/-! ### Searching -/

/-- A text that is not empty is found at the beginning of no character but its own. -/
theorem findFrom_followers {first : UInt8} {needle bytes : List UInt8} (hfirst : first.IsUTF8FirstByte)
    (hbytes : ∀ b ∈ bytes, ¬ b.IsUTF8FirstByte) (offset : Nat) (more : List UInt8) :
    findFrom (first :: needle) offset (bytes ++ more) =
      findFrom (first :: needle) (offset + bytes.length) more := by
  induction bytes generalizing offset with
  | nil => rfl
  | cons b bytes ih =>
    rw [List.forall_mem_cons] at hbytes
    have hne : ¬ (first :: needle).isPrefixOf (b :: (bytes ++ more)) = true := by
      rw [List.isPrefixOf_iff_prefix, List.cons_prefix_cons]
      rintro ⟨rfl, -⟩
      exact hbytes.1 hfirst
    rw [List.cons_append, findFrom, if_neg hne, ih hbytes.2, List.length_cons]
    congr 1
    omega

/-- **A text is found where its bytes are.** -/
theorem findFrom_encode (needle text : List Char) (offset : Nat) :
    findFrom (encode needle) offset (encode text) =
      (Scan.findLength needle text).map fun n => offset + byteLength (text.take n) := by
  induction text generalizing offset with
  | nil =>
    cases needle with
    | nil => rfl
    | cons d needle =>
      rw [Utf8.encode_cons]
      rfl
  | cons c rest ih =>
    have hbegins : (encode needle).isPrefixOf (lead c :: (followers c ++ encode rest)) =
        needle.isPrefixOf (c :: rest) := by
      rw [← Utf8.encode_cons, Bool.eq_iff_iff, List.isPrefixOf_iff_prefix, List.isPrefixOf_iff_prefix,
        Utf8.encode_prefix_iff]
    rw [Utf8.encode_cons, findFrom, hbegins, Scan.findLength]
    split
    · rfl
    · next hnot =>
      cases needle with
      | nil => exact absurd rfl hnot
      | cons d needle =>
        have hfollowers := Utf8.length_followers c
        rw [Utf8.encode_cons, findFrom_followers (Utf8.isFirst_lead d) fun b hb => Utf8.not_isFirst_of_mem hb,
          ← Utf8.encode_cons, ih, Option.map_map]
        congr 1
        funext n
        simp only [Function.comp_apply, List.take_succ_cons, byteLength_cons]
        omega

theorem find?_between (needle : String) :
    (between mark before ahead).find? needle =
      some ((Scan.findLength needle.toList ahead).map fun n =>
        byteLength before + byteLength (ahead.take n)) := by
  rw [find?, if_pos pos_le_size, find, drop_between, toUTF8_eq, findFrom_encode]
  rfl

/-! ### Indentation -/

theorem isAscii_of_isGap {c : Char} (h : Scan.isGap c = true) : IsAscii c := by
  simp only [Scan.isGap, Bool.or_eq_true, beq_iff_eq] at h
  rcases h with (rfl | rfl) | rfl <;> decide

theorem uniform_isGap : Uniform Scan.isGap := Utf8.uniform_of_ascii fun _ => isAscii_of_isGap

theorem measureIndent_split (h : v.bytes = encode (before ++ ahead)) (width : Nat) :
    v.measureIndent width (byteLength before) =
      ((ahead.takeWhile Scan.isGap).foldl Scan.widen width, front (ahead.dropWhile Scan.isGap)) := by
  induction ahead generalizing before width with
  | nil =>
    rw [measureIndent, charAt_split h, dif_neg (by decide)]
    rfl
  | cons c rest ih =>
    rw [measureIndent, charAt_split h, List.takeWhile_cons, List.dropWhile_cons]
    by_cases hc : Scan.isGap c = true
    · have hascii := isAscii_of_isGap hc
      have hnext : byteLength before + 1 = byteLength (before ++ [c]) := by
        rw [byteLength_append, byteLength_cons, Utf8.utf8Size_ascii hascii, byteLength_nil]
      have hbytes : v.bytes = encode ((before ++ [c]) ++ rest) := by rw [h, List.append_assoc]; rfl
      rw [front_ascii hascii, dif_pos hc, if_pos hc, if_pos hc, hnext, ih hbytes]
      rfl
    · rw [dif_neg (by rwa [front_uniform uniform_isGap]), if_neg hc, if_neg hc]
      rfl

end ByteView

end Quasiquote
