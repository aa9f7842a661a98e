import CpkProvenance.Manifest.Basic
import CpkProvenance.Manifest.Digests
import CpkProvenance.Proofs.Bytes.Base64
import CpkProvenance.Proofs.Text.Case

/-!
# Recorded digests

A manifest records the digest of an entry as text, and a signature file those of the manifest
and its sections. Which headers record a digest, and what their text must be, is said here
apart from how it is looked up and compared: the header is the name of an algorithm with an
ending, and the text is the digest in Base64, with nothing but blanks around it.
-/

namespace CpkProvenance

section First

variable {α : Type}

/-- The first member of a list with a property. -/
def IsFirst (p : α → Prop) (xs : List α) (x : α) : Prop :=
  p x ∧ ∃ before after, xs = before ++ x :: after ∧ ∀ y ∈ before, ¬ p y

theorem find?_eq_some_iff_isFirst {p : α → Prop} {q : α → Bool} (h : ∀ x, q x = true ↔ p x)
    {xs : List α} {x : α} : xs.find? q = some x ↔ IsFirst p xs x := by
  simp only [List.find?_eq_some_iff_append, IsFirst, h, Bool.not_eq_true', ← Bool.not_eq_true]

end First

/-- A recorded digest is compared with the written form. -/
theorem Digest.recorded_eq_true_iff {text : String} {actual : Bytes} :
    recorded text actual = true ↔ Text.trim text = Base64.encodeText actual := by
  rw [recorded, ← Base64.decode_trim_eq_ok_iff]
  cases Base64.decode (Utf8.encode (Text.trim text).toList) with
  | error fault => simp
  | ok expected => simp

namespace Manifest

theorem section?_eq_some_iff {m : Manifest} {name : String} {s : Section} :
    m.section? name = some s ↔ IsFirst (·.name = name) m.sections s :=
  find?_eq_some_iff_isFirst fun _ => beq_iff_eq

namespace RecordedDigest

variable {d : RecordedDigest} {data : Bytes}

/-- The text is the digest of the bytes in Base64, with blanks around it. -/
def IsDigestOf (d : RecordedDigest) (data : Bytes) : Prop :=
  Text.trim d.text = Base64.encodeText (d.algorithm.digest data)

theorem isOf_iff : d.isOf data = true ↔ d.IsDigestOf data :=
  Digest.recorded_eq_true_iff

theorem isOf_eq_false_iff : d.isOf data = false ↔ ¬ d.IsDigestOf data := by
  rw [← isOf_iff, Bool.not_eq_true]

instance (d : RecordedDigest) (data : Bytes) : Decidable (d.IsDigestOf data) :=
  decidable_of_iff (d.isOf data = true) isOf_iff

end RecordedDigest

/-- The header is the name of an algorithm with the given text after it, in any case. -/
def Attribute.IsDigest (a : Attribute) (tail : String) (algorithm : Digest.Algorithm) : Prop :=
  ∃ name, Text.upper a.name = name ++ Text.upper tail ∧
    Digest.Algorithm.ofName? name = some algorithm

theorem RecordedDigest.ofAttribute?_eq_some_iff {tail : String} {a : Attribute}
    {d : RecordedDigest} :
    ofAttribute? tail a = some d ↔ a.IsDigest tail d.algorithm ∧ d.text = a.value := by
  simp only [ofAttribute?, Digest.Algorithm.ofAttribute?, Option.map_eq_some_iff,
    Option.bind_eq_some_iff, Text.dropEnd?_eq_some_iff, Attribute.IsDigest]
  constructor
  · rintro ⟨algorithm, hdigest, rfl⟩
    exact ⟨hdigest, rfl⟩
  · rintro ⟨hdigest, htext⟩
    exact ⟨d.algorithm, hdigest, by rw [← htext]⟩

/-- One of the attributes records a digest, in a header that ends in the given text. -/
def Attributes.Records (attributes : Attributes) (tail : String) (d : RecordedDigest) : Prop :=
  ∃ a ∈ attributes, a.IsDigest tail d.algorithm ∧ d.text = a.value

theorem Attributes.mem_digests_iff {attributes : Attributes} {tail : String}
    {d : RecordedDigest} : d ∈ attributes.digests tail ↔ attributes.Records tail d := by
  simp only [digests, List.mem_filterMap, RecordedDigest.ofAttribute?_eq_some_iff, Records]

/-- The digests that a section records of its entry, or of another section. -/
abbrev Section.digests (s : Section) : List RecordedDigest :=
  s.attributes.digests "-Digest"

/-- The section records a digest of its entry, or of another section. -/
abbrev Section.Records (s : Section) (d : RecordedDigest) : Prop :=
  s.attributes.Records "-Digest" d

theorem Section.digests_ne_nil_iff {s : Section} : s.digests ≠ [] ↔ ∃ d, s.Records d := by
  constructor
  · intro h
    obtain ⟨d, hd⟩ := List.exists_mem_of_ne_nil _ h
    exact ⟨d, Attributes.mem_digests_iff.mp hd⟩
  · rintro ⟨d, hd⟩
    exact List.ne_nil_of_mem (Attributes.mem_digests_iff.mpr hd)

instance (s : Section) : Decidable (∃ d, s.Records d) :=
  decidable_of_iff (s.digests ≠ []) Section.digests_ne_nil_iff

end Manifest

end CpkProvenance
