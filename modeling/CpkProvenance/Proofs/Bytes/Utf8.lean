import CpkProvenance.Bytes.Utf8
import Mathlib.Data.List.Basic

/-!
# UTF-8 and ASCII

The strict reading accepts exactly what writing produces. A byte below 128 stands for
the character of the same number wherever it occurs: it is no part of the encoding of
any other character.
-/

namespace CpkProvenance.Utf8

section Characters

variable {b : UInt8} {c : Char}

/-- A character below 128 is encoded as itself, and every byte of another one is above. -/
theorem utf8EncodeChar_cases (c : Char) :
    (c.toNat < 128 ∧ String.utf8EncodeChar c = [UInt8.ofNat c.toNat]) ∨
      (128 ≤ c.toNat ∧ ∃ b rest, String.utf8EncodeChar c = b :: rest ∧
        ∀ x ∈ b :: rest, 128 ≤ x.toNat) := by
  unfold String.utf8EncodeChar
  simp only
  split
  · next h => exact .inl ⟨Nat.lt_succ_of_le h, rfl⟩
  · next h =>
      refine .inr ⟨Nat.lt_of_not_le h, ?_⟩
      split
      · refine ⟨_, _, rfl, ?_⟩
        simp only [List.forall_mem_cons, UInt8.toNat_ofNat']
        refine ⟨by omega, by omega, List.forall_mem_nil _⟩
      · split
        · refine ⟨_, _, rfl, ?_⟩
          simp only [List.forall_mem_cons, UInt8.toNat_ofNat']
          exact ⟨by omega, by omega, by omega, List.forall_mem_nil _⟩
        · refine ⟨_, _, rfl, ?_⟩
          simp only [List.forall_mem_cons, UInt8.toNat_ofNat']
          exact ⟨by omega, by omega, by omega, by omega, List.forall_mem_nil _⟩

theorem toNat_ofNat_of_ascii (h : b.toNat < 128) : (Char.ofNat b.toNat).toNat = b.toNat := by
  rw [Char.ofNat, dif_pos (.inl (by omega))]
  rfl

theorem ofNat_toNat_eq_iff (hc : c.toNat < 128) (hb : b.toNat < 128) :
    UInt8.ofNat c.toNat = b ↔ c = Char.ofNat b.toNat := by
  constructor
  · rintro rfl
    rw [UInt8.toNat_ofNat', Nat.mod_eq_of_lt (by omega), Char.ofNat_toNat]
  · rintro rfl
    rw [toNat_ofNat_of_ascii hb, UInt8.ofNat_toNat]

theorem mem_utf8EncodeChar_iff (hb : b.toNat < 128) :
    b ∈ String.utf8EncodeChar c ↔ c = Char.ofNat b.toNat := by
  rcases utf8EncodeChar_cases c with ⟨hlow, hc⟩ | ⟨hhigh, first, rest, hc, habove⟩
  · rw [hc, List.mem_singleton, eq_comm, ofNat_toNat_eq_iff hlow hb]
  · rw [hc]
    refine iff_of_false (fun hmem => ?_) ?_
    · have := habove b hmem
      omega
    · rintro rfl
      rw [toNat_ofNat_of_ascii hb] at hhigh
      omega

end Characters

section Texts

variable {b : UInt8} {c : Char} {text : List Char} {bytes : Bytes}

theorem encode_cons : encode (c :: text) = String.utf8EncodeChar c ++ encode text := rfl

theorem mem_encode_iff (hb : b.toNat < 128) : b ∈ encode text ↔ Char.ofNat b.toNat ∈ text := by
  rw [encode, List.mem_flatMap]
  simp only [mem_utf8EncodeChar_iff hb, exists_eq_right]

theorem head?_encode_eq_iff (hb : b.toNat < 128) :
    (encode text).head? = some b ↔ text.head? = some (Char.ofNat b.toNat) := by
  cases text with
  | nil => exact iff_of_false (by rintro ⟨⟩) (by rintro ⟨⟩)
  | cons c text =>
      rw [List.head?_cons, Option.some.injEq, encode_cons]
      rcases utf8EncodeChar_cases c with ⟨hlow, hc⟩ | ⟨hhigh, first, rest, hc, habove⟩
      · rw [hc, List.singleton_append, List.head?_cons, Option.some.injEq,
          ofNat_toNat_eq_iff hlow hb]
      · rw [← mem_utf8EncodeChar_iff hb, hc, List.cons_append, List.head?_cons,
          Option.some.injEq]
        constructor
        · rintro rfl
          exact List.mem_cons_self
        · intro hmem
          have := habove b hmem
          omega

/-- Bytes below 128 encode the characters of the same numbers, and nothing else. -/
theorem encode_eq_iff_of_ascii (h : ∀ b ∈ bytes, b.toNat < 128) :
    encode text = bytes ↔ text = bytes.map fun b => Char.ofNat b.toNat := by
  induction text generalizing bytes with
  | nil => cases bytes <;> simp [encode]
  | cons c text ih =>
      rw [encode_cons]
      cases bytes with
      | nil =>
          obtain ⟨_, hc⟩ | ⟨_, b, rest, hc, _⟩ := utf8EncodeChar_cases c <;> simp [hc]
      | cons b bytes =>
          obtain ⟨hb, hbytes⟩ := List.forall_mem_cons.mp h
          rw [List.map_cons, List.cons.injEq]
          obtain ⟨hlow, hc⟩ | ⟨hhigh, first, rest, hc, habove⟩ := utf8EncodeChar_cases c
          · rw [hc, List.singleton_append, List.cons.injEq, ih hbytes, ofNat_toNat_eq_iff hlow hb]
          · have hfirst := habove first List.mem_cons_self
            rw [hc, List.cons_append, List.cons.injEq]
            constructor
            · rintro ⟨rfl, _⟩
              omega
            · rintro ⟨rfl, _⟩
              rw [toNat_ofNat_of_ascii hb] at hhigh
              omega

theorem toByteArray_eq (text : String) :
    text.toByteArray = ⟨(encode text.toList).toArray⟩ := by
  apply ByteArray.ext
  rw [← String.utf8Encode_toList, List.utf8Encode, List.data_toByteArray]
  rfl

theorem decode?_encode (text : String) : decode? (encode text.toList) = some text := by
  rw [decode?, ← toByteArray_eq, String.fromUTF8?, dif_pos text.isValidUTF8]
  rfl

/-- Reading accepts exactly what writing produces. -/
theorem decode?_eq_some_iff {text : String} :
    decode? bytes = some text ↔ bytes = encode text.toList := by
  constructor
  · intro h
    rw [decode?, String.fromUTF8?] at h
    split at h
    · next hvalid =>
        obtain rfl := Option.some.inj h
        have harray := (toByteArray_eq (String.fromUTF8 ⟨bytes.toArray⟩ hvalid)).symm
        exact (congrArg (fun a : ByteArray => a.data.toList) harray).symm
    · cases h
  · rintro rfl
    exact decode?_encode text

end Texts

end CpkProvenance.Utf8
