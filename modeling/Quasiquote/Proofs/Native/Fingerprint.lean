import Mathlib.Algebra.Group.Nat.Defs
import Quasiquote.Native.Fingerprint
import Quasiquote.Proofs.Source.Tiling

/-!
# Identities are told apart by their fingerprints

What is hashed for an identity is read back from its front. The length of a field stands before it and takes
the same room for every field, so a field ends at one place only, whatever it holds and whatever follows. Four
fields are always there, and all that follows them are arguments: their number need not be written.

## Main Definitions

* `Native.Identity.Fits` — an identity whose lengths can be written
* `Sha256.Collide` — two messages that a digest does not tell apart

## Main Statements

* `Native.eq_of_measured_append_eq` — a field is read back, whatever follows it
* `Native.eq_of_flatMap_measured_eq` — fields are read back, and so is their number
* `Native.Identity.told_apart` — identities with the same spelling, or with the same fingerprint

## Design Notes

No digest of fixed length is free of collisions, so none is assumed to be. Instead two identities with one
fingerprint are shown to be the same one, or else to be spelled by two messages that collide.
-/

namespace Quasiquote

/-- Two different messages with the same digest. -/
def Sha256.Collide (a b : List UInt8) : Prop := a ≠ b ∧ digest a = digest b

namespace Native

/-! ### Lengths -/

theorem length_lowBytes (n count : Nat) : (lowBytes n count).length = count := by
  induction count generalizing n with
  | zero => rfl
  | succ count ih => rw [lowBytes, List.length_cons, ih]

/-- A number is known by its lowest bytes if it has no others. -/
theorem eq_of_lowBytes_eq {m n count : Nat} (hm : m < 256 ^ count) (hn : n < 256 ^ count)
    (h : lowBytes m count = lowBytes n count) : m = n := by
  induction count generalizing m n with
  | zero => omega
  | succ count ih =>
    rw [Nat.pow_succ] at hm hn
    simp only [lowBytes, List.cons.injEq] at h
    have hrest : m / 256 = n / 256 := ih (by omega) (by omega) h.2
    have hfirst : m % 256 = n % 256 := by
      have hbyte := congrArg UInt8.toNat h.1
      simp only [UInt8.toNat_ofNat'] at hbyte
      omega
    omega

/-! ### Fields -/

/-- A text shorter than 2⁶⁴ bytes, whose length can be written. -/
def IsShort (text : String) : Prop := (Utf8.encodeString text).length < 2 ^ 64

instance (text : String) : Decidable (IsShort text) := by
  unfold IsShort
  infer_instance

theorem measured_ne_nil (text : String) : measured text ≠ [] := by
  intro h
  have hlength := congrArg List.length h
  rw [measured, List.length_append, length_lowBytes] at hlength
  simp at hlength

/-- **A field is read back, whatever follows it:** its length says where it ends. -/
theorem eq_of_measured_append_eq {s t : String} {xs ys : List UInt8} (hs : IsShort s)
    (ht : IsShort t) (h : measured s ++ xs = measured t ++ ys) : s = t ∧ xs = ys := by
  simp only [measured, List.append_assoc] at h
  obtain ⟨hmark, hrest⟩ :=
    List.append_inj h ((length_lowBytes _ 8).trans (length_lowBytes _ 8).symm)
  have hlength := eq_of_lowBytes_eq hs ht hmark
  obtain ⟨htext, hafter⟩ := List.append_inj hrest hlength
  exact ⟨Utf8.encodeString_injective htext, hafter⟩

/-- **Fields are read back, and so is their number.** -/
theorem eq_of_flatMap_measured_eq {fs gs : List String} (hf : ∀ f ∈ fs, IsShort f)
    (hg : ∀ g ∈ gs, IsShort g) (h : fs.flatMap measured = gs.flatMap measured) : fs = gs := by
  induction fs generalizing gs with
  | nil =>
    cases gs with
    | nil => rfl
    | cons g gs => exact absurd h.symm (by simp [measured_ne_nil])
  | cons f fs ih =>
    cases gs with
    | nil => exact absurd h (by simp [measured_ne_nil])
    | cons g gs =>
      rw [List.forall_mem_cons] at hf hg
      rw [List.flatMap_cons, List.flatMap_cons] at h
      obtain ⟨rfl, hrest⟩ := eq_of_measured_append_eq hf.1 hg.1 h
      rw [ih hf.2 hg.2 hrest]

/-! ### Identities -/

theorem kindWord_injective {k l : Site.Kind} (h : kindWord k = kindWord l) : k = l := by
  cases k with
  | block =>
    cases l with
    | block => rfl
    | expression => exact absurd h (by decide)
  | expression =>
    cases l with
    | block => exact absurd h (by decide)
    | expression => rfl

namespace Identity

/-- An identity of texts whose lengths can be written. -/
def Fits (i : Identity) : Prop :=
  ∀ text ∈ i.moduleName :: i.body :: i.tag :: i.arguments, IsShort text

instance (i : Identity) : Decidable i.Fits := by
  unfold Fits
  infer_instance

theorem Fits.fields {i : Identity} (h : i.Fits) : ∀ field ∈ i.fields, IsShort field := by
  rw [Identity.fields, List.forall_mem_cons]
  refine ⟨?_, h⟩
  cases i.kind with
  | block | expression => decide

theorem fields_injective {i j : Identity} (h : i.fields = j.fields) : i = j := by
  obtain ⟨kind, moduleName, body, tag, arguments⟩ := i
  obtain ⟨kind', moduleName', body', tag', arguments'⟩ := j
  simp only [Identity.fields, List.cons.injEq] at h
  obtain ⟨hkind, rfl, rfl, rfl, rfl⟩ := h
  rw [kindWord_injective hkind]

theorem eq_of_bytes_eq {i j : Identity} (hi : i.Fits) (hj : j.Fits) (h : i.bytes = j.bytes) :
    i = j :=
  fields_injective (eq_of_flatMap_measured_eq hi.fields hj.fields h)

/-- **Identities are told apart.** Two of them are spelled alike only if they agree in kind, module, body,
interface and arguments; and they share a fingerprint only if they agree in all of these, or if the digest
fails to tell their two spellings apart. -/
theorem told_apart {i j : Identity} (hi : i.Fits) (hj : j.Fits) :
    (i.bytes = j.bytes ↔ i = j) ∧
      (i.fingerprint = j.fingerprint ↔ i = j ∨ Sha256.Collide i.bytes j.bytes) := by
  have hbytes : i.bytes = j.bytes ↔ i = j := ⟨eq_of_bytes_eq hi hj, fun h => h ▸ rfl⟩
  refine ⟨hbytes, ?_⟩
  have hdigest : i.fingerprint = j.fingerprint ↔ Sha256.digest i.bytes = Sha256.digest j.bytes := by
    rw [fingerprint, fingerprint, Fingerprint.mk.injEq]
  rw [hdigest, ← hbytes]
  constructor
  · intro h
    by_cases heq : i.bytes = j.bytes
    · exact .inl heq
    · exact .inr ⟨heq, h⟩
  · rintro (heq | hcollide)
    · rw [heq]
    · exact hcollide.2

/-- A body whose beginning another identity has at the end of its module, and an argument that the other
has in two pieces. -/
def shifted : Identity × Identity :=
  (⟨.expression, "ab", "c", baseTag, ["-DX"]⟩, ⟨.expression, "a", "bc", baseTag, ["-D", "X"]⟩)

theorem shifted_told_apart :
    shifted.1.Fits ∧ shifted.2.Fits ∧ shifted.1.bytes ≠ shifted.2.bytes ∧
      (shifted.1.fingerprint = shifted.2.fingerprint ↔
        Sha256.Collide shifted.1.bytes shifted.2.bytes) := by
  have hfirst : shifted.1.Fits := by decide
  have hsecond : shifted.2.Fits := by decide
  have hne : shifted.1 ≠ shifted.2 := by decide
  obtain ⟨hbytes, hfingerprint⟩ := told_apart hfirst hsecond
  refine ⟨hfirst, hsecond, fun h => hne (hbytes.1 h), ?_⟩
  rw [hfingerprint]
  exact or_iff_right hne

end Identity

end Native

end Quasiquote
