import CpkProvenance.Proofs.Bytes.StandardForm
import CpkProvenance.Proofs.Document.Reader
import CpkProvenance.Proofs.Manifest.Digests

/-!
# The spelling of a digest

A digest in a manifest and a hash in a document are read from Base64 with blanks around it.
Neither reader takes any text but the standard form of the bytes: bits left over in the last
letter, padding that is too short or too long, and characters from elsewhere are refused, for
digests of every length.
-/

namespace CpkProvenance

namespace Base64

/-- The letters and the padding are no blanks, and have no hyphen and no low line among them. -/
theorem alphabet_plain {c : Char} (h : c ∈ alphabet ∨ c = '=') :
    Text.isBlank c = false ∧ c ≠ '-' ∧ c ≠ '_' := by
  have htable : (('=' :: alphabet).all fun c => !Text.isBlank c && c != '-' && c != '_') = true := by
    decide
  have hc := List.all_eq_true.mp htable c (List.mem_cons.mpr h.symm)
  simpa [and_assoc] using hc

theorem trim_spelled (numbers : List (Fin 64)) (padding : Nat) :
    Text.trim (spelled numbers padding) = spelled numbers padding := by
  apply Text.trim_of_forall
  intro c hc
  exact (alphabet_plain (mem_alphabet_of_mem_spelled hc)).1

/-- So a written form has none of them either. -/
theorem plain_of_mem_encodeText {bytes : Bytes} {c : Char} (h : c ∈ (encodeText bytes).toList) :
    Text.isBlank c = false ∧ c ≠ '-' ∧ c ≠ '_' := by
  obtain ⟨form, hform⟩ := exists_standardForm bytes
  rw [← hform] at h
  exact alphabet_plain (mem_alphabet_of_mem_spelled h)

/-- Trimming gives a written form if it stands between blanks. -/
theorem trim_eq_encodeText_iff {text : String} {bytes : Bytes} :
    Text.trim text = encodeText bytes ↔
      ∃ (form : StandardForm bytes) (before after : String),
        Text.allBlank before = true ∧ Text.allBlank after = true ∧
          text = before ++ form.text ++ after := by
  have hblank : ∀ c ∈ (encodeText bytes).toList, Text.isBlank c = false := by
    intro c hc
    exact (plain_of_mem_encodeText hc).1
  obtain ⟨form, hform⟩ := exists_standardForm bytes
  rw [Text.trim_eq_iff hblank, ← hform]
  constructor
  · intro h
    exact ⟨form, h⟩
  · rintro ⟨other, h⟩
    rwa [other.eq form] at h

end Base64

namespace Digest

/-- A digest is recognised in a text exactly if the text is the standard form with blanks
around it, and a hash is read from a text exactly if it is recognised there. Of all texts
whose letters spell out the digest, with whatever bits behind it and whatever padding, the one
with fewer than six zeros and with the padding to the next multiple of four is taken, and a
text with blanks inside, hyphens or low lines is taken for no digest. -/
theorem recorded_iff_standardForm (digest : Bytes) (text : String) :
    (recorded text digest = true ↔ Text.trim text = Base64.encodeText digest) ∧
      (recorded text digest = true ↔
        ∃ (form : Base64.StandardForm digest) (before after : String),
          Text.allBlank before = true ∧ Text.allBlank after = true ∧
            text = before ++ form.text ++ after) ∧
      (∀ (tag : Xml.Tag) (h : Document.HashValue), Document.hashValue tag text = .ok h ↔
        tag.attribute? "algorithm" = some h.algorithm ∧ h.algorithm ≠ "" ∧
          Base64.encodeText h.value = Text.trim text) ∧
      (∀ (numbers : List (Fin 64)) (more : List Bool) (padding : Nat),
        Base64.letterBits numbers = Base64.byteBits digest ++ more →
          (recorded (Base64.spelled numbers padding) digest = true ↔
            more.length < 6 ∧ (∀ b ∈ more, b = false) ∧ padding < 4 ∧
              (numbers.length + padding) % 4 = 0)) ∧
      ∀ c ∈ (Text.trim text).toList, Text.isBlank c = true ∨ c = '-' ∨ c = '_' →
        recorded text digest = false := by
  refine ⟨recorded_eq_true_iff, ?_, ?_, ?_, ?_⟩
  · rw [recorded_eq_true_iff, Base64.trim_eq_encodeText_iff]
  · intro tag h
    rw [Document.hashValue_eq_ok_iff, eq_comm (a := Text.trim text)]
  · intro numbers more padding h
    rw [recorded_eq_true_iff, Base64.trim_spelled, Base64.spelled_eq_encodeText_iff h]
  · intro c hc hforeign
    rw [← Bool.not_eq_true, recorded_eq_true_iff]
    intro htext
    rw [htext] at hc
    obtain ⟨hblank, hhyphen, hline⟩ := Base64.plain_of_mem_encodeText hc
    rcases hforeign with h | h | h
    · rw [hblank] at h
      cases h
    · exact hhyphen h
    · exact hline h

end Digest

end CpkProvenance
