import Mathlib.Tactic.Common
import Quasiquote.Source.Position
import Quasiquote.Text.Utf8

/-!
# Texts and their bytes

An ASCII character is the byte of its number. Any other one is a leading byte, which tells how many bytes
there are, and bytes that no character begins with. So bytes tell where characters begin, and a text is told
by its bytes.

## Main Definitions

* `Utf8.IsAscii` — the characters of one byte
* `Utf8.lead`, `Utf8.followers` — the byte that a character begins with, and the bytes behind it

## Main Statements

* `Utf8.encodeChar_eq`, `Utf8.lead_cases` — the bytes of a character
* `Utf8.ofUInt8_lead_eq_iff` — an ASCII character is found by looking at single bytes
* `Utf8.encode_prefix_iff` — a text begins with another one exactly if its bytes do
-/

namespace Quasiquote

theorem byteLength_reverse (text : List Char) : byteLength text.reverse = byteLength text := by
  induction text with
  | nil => rfl
  | cons c rest ih =>
    rw [List.reverse_cons, byteLength_append, ih, byteLength_cons, byteLength_cons, byteLength_nil]
    omega

theorem length_le_byteLength (text : List Char) : text.length ≤ byteLength text := by
  induction text with
  | nil => exact Nat.le_refl 0
  | cons c rest ih =>
    have hpos := c.utf8Size_pos
    rw [List.length_cons, byteLength_cons]
    omega

namespace Utf8

/-- The characters of one byte. -/
def IsAscii (c : Char) : Prop := c.toNat < 0x80

instance (c : Char) : Decidable (IsAscii c) := inferInstanceAs (Decidable (c.toNat < 0x80))

/-- The byte that a character begins with. -/
def lead (c : Char) : UInt8 := (String.utf8EncodeChar c).headD 0

/-- The bytes of a character behind the first one. -/
def followers (c : Char) : List UInt8 := (String.utf8EncodeChar c).tail

/-! ### The bytes of a character -/

theorem encodeChar_eq (c : Char) : String.utf8EncodeChar c = lead c :: followers c := by
  unfold lead followers
  cases h : String.utf8EncodeChar c with
  | nil => exact absurd h String.utf8EncodeChar_ne_nil
  | cons b rest => rfl

theorem length_followers (c : Char) : (followers c).length + 1 = c.utf8Size := by
  rw [← String.length_utf8EncodeChar, encodeChar_eq, List.length_cons]

/-- An ASCII character is the byte of its number. -/
theorem encodeChar_ascii {c : Char} (h : IsAscii c) :
    String.utf8EncodeChar c = [UInt8.ofNat c.toNat] := by
  have hsmall : c.val.toNat ≤ 0x7f := Nat.le_of_lt_succ h
  rw [String.utf8EncodeChar]
  simp only [if_pos hsmall]
  rfl

theorem utf8Size_ascii {c : Char} (h : IsAscii c) : c.utf8Size = 1 := by
  rw [← String.length_utf8EncodeChar, encodeChar_ascii h, List.length_singleton]

/-- **The leading byte tells how many bytes there are.** -/
theorem lead_cases (c : Char) :
    (IsAscii c ∧ (lead c).toNat = c.toNat ∧ c.utf8Size = 1) ∨
    (¬ IsAscii c ∧ 0xc0 ≤ (lead c).toNat ∧ (lead c).toNat < 0xe0 ∧ c.utf8Size = 2) ∨
    (¬ IsAscii c ∧ 0xe0 ≤ (lead c).toNat ∧ (lead c).toNat < 0xf0 ∧ c.utf8Size = 3) ∨
    (¬ IsAscii c ∧ 0xf0 ≤ (lead c).toNat ∧ (lead c).toNat < 0xf8 ∧ c.utf8Size = 4) := by
  have hsize := String.length_utf8EncodeChar c
  by_cases hascii : IsAscii c
  · refine .inl ⟨hascii, ?_, utf8Size_ascii hascii⟩
    have hlt : c.toNat < 0x80 := hascii
    rw [lead, encodeChar_ascii hascii]
    exact UInt8.toNat_ofNat_of_lt' (Nat.lt_trans hlt (by decide))
  · have hlarge : ¬ c.val.toNat ≤ 0x7f := fun h => hascii (Nat.lt_succ_of_le h)
    rw [String.utf8EncodeChar] at hsize
    simp only [if_neg hlarge] at hsize
    unfold lead
    rw [String.utf8EncodeChar]
    simp only [if_neg hlarge]
    have hbyte (n k low : Nat) (hk : low + k ≤ 256) (hpos : 0 < k) :
        low ≤ (UInt8.ofNat (n % k + low)).toNat ∧ (UInt8.ofNat (n % k + low)).toNat < low + k := by
      have hlt := Nat.mod_lt n hpos
      rw [UInt8.toNat_ofNat_of_lt' (show _ < 256 by omega)]
      omega
    split at hsize
    · next h =>
      rw [if_pos h]
      exact .inr (.inl ⟨hascii, (hbyte _ _ _ (by decide) (by decide)).1,
        (hbyte _ _ _ (by decide) (by decide)).2, hsize.symm⟩)
    split at hsize
    · next h h' =>
      rw [if_neg h, if_pos h']
      exact .inr (.inr (.inl ⟨hascii, (hbyte _ _ _ (by decide) (by decide)).1,
        (hbyte _ _ _ (by decide) (by decide)).2, hsize.symm⟩))
    · next h h' =>
      rw [if_neg h, if_neg h']
      exact .inr (.inr (.inr ⟨hascii, (hbyte _ _ _ (by decide) (by decide)).1,
        (hbyte _ _ _ (by decide) (by decide)).2, hsize.symm⟩))

theorem isAscii_of_utf8Size {c : Char} (h : c.utf8Size = 1) : IsAscii c := by
  rcases lead_cases c with ⟨hc, -⟩ | ⟨-, -, -, hsize⟩ | ⟨-, -, -, hsize⟩ | ⟨-, -, -, hsize⟩
  · exact hc
  · omega
  · omega
  · omega

theorem isFirst_lead (c : Char) : (lead c).IsUTF8FirstByte := by
  have h := UInt8.isUTF8FirstByte_getElem_zero_utf8EncodeChar (c := c)
  simp only [encodeChar_eq, List.getElem_cons_zero] at h
  exact h

/-- No character begins with one of the bytes behind a leading one. -/
theorem not_isFirst_of_mem {c : Char} {b : UInt8} (h : b ∈ followers c) : ¬ b.IsUTF8FirstByte := by
  obtain ⟨i, hi, rfl⟩ := List.getElem_of_mem h
  have hlength : i + 1 < (String.utf8EncodeChar c).length := by
    rw [encodeChar_eq, List.length_cons]
    exact Nat.succ_lt_succ hi
  have hfirst := @UInt8.isUTF8FirstByte_getElem_utf8EncodeChar c _ hlength
  simp only [encodeChar_eq, List.getElem_cons_succ] at hfirst
  rw [hfirst]
  exact Nat.succ_ne_zero i

theorem isFirst_of_lt {b : UInt8} (h : b.toNat < 0x80) : b.IsUTF8FirstByte := by
  have hall : ∀ n < 0x80, (UInt8.ofNat n).IsUTF8FirstByte := by decide +kernel
  have hb := hall _ h
  rwa [UInt8.ofNat_toNat] at hb

/-! ### Looking at single bytes -/

@[simp] theorem toNat_ofUInt8 (b : UInt8) : (Char.ofUInt8 b).toNat = b.toNat := rfl

theorem ofUInt8_inj {b d : UInt8} : Char.ofUInt8 b = Char.ofUInt8 d ↔ b = d := by
  rw [← Char.toNat_inj, toNat_ofUInt8, toNat_ofUInt8, UInt8.toNat_inj]

theorem ofNat_toNat (b : UInt8) : Char.ofNat b.toNat = Char.ofUInt8 b := by
  rw [← toNat_ofUInt8, Char.ofNat_toNat]

/-- The leading byte of an ASCII character is the character. -/
theorem ofUInt8_lead_ascii {c : Char} (h : IsAscii c) : Char.ofUInt8 (lead c) = c := by
  rcases lead_cases c with ⟨-, hlead, -⟩ | ⟨hwide, -⟩ | ⟨hwide, -⟩ | ⟨hwide, -⟩
  · exact Char.toNat_inj.1 (by rw [toNat_ofUInt8, hlead])
  · exact absurd h hwide
  · exact absurd h hwide
  · exact absurd h hwide

/-- The leading byte of any other character is no ASCII character. -/
theorem not_isAscii_lead {c : Char} (h : ¬ IsAscii c) : ¬ IsAscii (Char.ofUInt8 (lead c)) := by
  have hlow : 0x80 ≤ (lead c).toNat := by
    rcases lead_cases c with ⟨hascii, -⟩ | ⟨-, hlow, -⟩ | ⟨-, hlow, -⟩ | ⟨-, hlow, -⟩
    · exact absurd hascii h
    · omega
    · omega
    · omega
  exact Nat.not_lt.2 hlow

/-- The bytes behind a leading one are no ASCII characters. -/
theorem not_isAscii_follower {c : Char} {b : UInt8} (h : b ∈ followers c) :
    ¬ IsAscii (Char.ofUInt8 b) := fun hascii =>
  not_isFirst_of_mem h (isFirst_of_lt hascii)

/-- **An ASCII character is found by looking at leading bytes.** -/
theorem ofUInt8_lead_eq_iff {c a : Char} (ha : IsAscii a) : Char.ofUInt8 (lead c) = a ↔ c = a := by
  by_cases hc : IsAscii c
  · rw [ofUInt8_lead_ascii hc]
  · refine iff_of_false ?_ ?_
    · rintro rfl
      exact not_isAscii_lead hc ha
    · rintro rfl
      exact hc ha

/-- A class of characters that holds all characters beyond ASCII or none of them. -/
def Uniform (p : Char → Bool) : Prop := ∀ c d, ¬ IsAscii c → ¬ IsAscii d → p c = p d

/-- **Such a class is told by leading bytes.** -/
theorem Uniform.lead {p : Char → Bool} (h : Uniform p) (c : Char) :
    p (Char.ofUInt8 (lead c)) = p c := by
  by_cases hc : IsAscii c
  · rw [ofUInt8_lead_ascii hc]
  · exact h _ _ (not_isAscii_lead hc) hc

theorem Uniform.follower {p : Char → Bool} (h : Uniform p) {c : Char} {b : UInt8}
    (hb : b ∈ followers c) : p (Char.ofUInt8 b) = p c := by
  refine h _ _ (not_isAscii_follower hb) fun hc => ?_
  have hlength := length_followers c
  rw [utf8Size_ascii hc, Nat.add_eq_right, List.length_eq_zero_iff] at hlength
  rw [hlength] at hb
  exact List.not_mem_nil hb

/-- All the bytes of a character are in such a class, or none. -/
theorem Uniform.byte {p : Char → Bool} (h : Uniform p) {c : Char} {b : UInt8}
    (hb : b ∈ String.utf8EncodeChar c) : p (Char.ofUInt8 b) = p c := by
  rw [encodeChar_eq] at hb
  rcases List.mem_cons.1 hb with rfl | hb
  · exact h.lead c
  · exact h.follower hb

/-! ### Classes told by bytes -/

theorem uniform_of_ascii {p : Char → Bool} (h : ∀ c, p c = true → IsAscii c) : Uniform p := by
  intro c d hc hd
  rw [Bool.eq_false_iff.2 fun hp => hc (h c hp), Bool.eq_false_iff.2 fun hp => hd (h d hp)]

theorem uniform_of_wide {p : Char → Bool} (h : ∀ c, ¬ IsAscii c → p c = true) : Uniform p := by
  intro c d hc hd
  rw [h c hc, h d hd]

theorem uniform_beq {a : Char} (ha : IsAscii a) : Uniform (· == a) :=
  uniform_of_ascii fun c hc => by rwa [beq_iff_eq.1 hc]

theorem Uniform.not {p : Char → Bool} (h : Uniform p) : Uniform fun c => !p c :=
  fun c d hc hd => congrArg (!·) (h c d hc hd)

theorem isAscii_of_beq_or {a b c : Char} (ha : IsAscii a) (hb : IsAscii b) (h : (c == a || c == b) = true) :
    IsAscii c := by
  rw [Bool.or_eq_true, beq_iff_eq, beq_iff_eq] at h
  rcases h with rfl | rfl
  · exact ha
  · exact hb

/-! ### The bytes of a text -/

theorem encode_char (c : Char) (text : List Char) :
    encode (c :: text) = String.utf8EncodeChar c ++ encode text := rfl

theorem encode_cons (c : Char) (text : List Char) :
    encode (c :: text) = lead c :: (followers c ++ encode text) := by
  rw [encode, List.flatMap_cons, encodeChar_eq]
  rfl

/-- Characters are told by their bytes. -/
theorem encodeChar_injective {c d : Char} (h : String.utf8EncodeChar c = String.utf8EncodeChar d) :
    c = d := by
  have hdecode (c : Char) := ByteArray.utf8DecodeChar?_utf8EncodeChar_append (b := ByteArray.empty) (c := c)
  have hc := hdecode c
  rw [h, hdecode d] at hc
  exact (Option.some.inj hc).symm

/-- Characters with one leading byte have equally many bytes. -/
theorem utf8Size_eq_of_lead {c d : Char} (h : lead c = lead d) : c.utf8Size = d.utf8Size := by
  rcases lead_cases c with ⟨hc, hlead, hsize⟩ | ⟨-, hlow, hhigh, hsize⟩ | ⟨-, hlow, hhigh, hsize⟩ |
      ⟨-, hlow, hhigh, hsize⟩ <;>
    rcases lead_cases d with ⟨hd, hlead', hsize'⟩ | ⟨-, hlow', hhigh', hsize'⟩ |
      ⟨-, hlow', hhigh', hsize'⟩ | ⟨-, hlow', hhigh', hsize'⟩ <;>
    simp only [h, IsAscii] at * <;> omega

/-- **A text begins with another one exactly if its bytes do.** -/
theorem encode_prefix_iff {text other : List Char} : encode text <+: encode other ↔ text <+: other := by
  constructor
  · intro h
    induction text generalizing other with
    | nil => exact List.nil_prefix
    | cons c text ih =>
      cases other with
      | nil =>
        rw [encode_cons] at h
        exact absurd (List.prefix_nil.1 h) (List.cons_ne_nil _ _)
      | cons d other =>
        -- the leading bytes agree, and so the characters do
        rw [encode_cons, encode_cons, List.cons_prefix_cons] at h
        obtain ⟨hlead, h⟩ := h
        have hlength : (followers c).length = (followers d).length := by
          have hsize := utf8Size_eq_of_lead hlead
          rwa [← length_followers, ← length_followers, Nat.add_left_inj] at hsize
        obtain ⟨after, hafter⟩ := h
        rw [List.append_assoc] at hafter
        obtain ⟨hfollowers, hrest⟩ := List.append_inj hafter hlength
        have hsame : c = d := encodeChar_injective (by rw [encodeChar_eq, encodeChar_eq, hlead, hfollowers])
        rw [hsame, List.cons_prefix_cons]
        exact ⟨rfl, ih ⟨after, hrest⟩⟩
  · rintro ⟨after, rfl⟩
    rw [encode_append]
    exact List.prefix_append _ _

end Utf8

end Quasiquote
