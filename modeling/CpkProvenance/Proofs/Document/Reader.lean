import CpkProvenance.Document.Reader
import CpkProvenance.Proofs.Bytes.Base64

/-!
# What the readers accept, element by element

The parts of the readers that look at one element only: the hash in it, the name
and namespace of a root, and the fields that a record must have.
-/

namespace CpkProvenance.Document

open Xml (Tag)

/-- An algorithm is named, and the trimmed text is the written form of the value. -/
theorem hashValue_eq_ok_iff {tag : Tag} {content : String} {h : HashValue} :
    hashValue tag content = .ok h ↔
      tag.attribute? "algorithm" = some h.algorithm ∧ h.algorithm ≠ "" ∧
        Text.trim content = Base64.encodeText h.value := by
  unfold hashValue
  cases hfilter : (tag.attribute? "algorithm").filter (· != "") with
  | none =>
      simp only [reduceCtorEq, false_iff]
      rintro ⟨hattribute, hne, _⟩
      simp [hattribute, hne] at hfilter
  | some algorithm =>
      obtain ⟨hattribute, hne⟩ := Option.filter_eq_some_iff.mp hfilter
      rw [hattribute]
      cases hdecode : Base64.decode (Utf8.encode (Text.trim content).toList) with
      | error fault =>
          simp only [reduceCtorEq, false_iff]
          rintro ⟨_, _, htext⟩
          rw [Base64.decode_trim_eq_ok_iff.mpr htext] at hdecode
          cases hdecode
      | ok value =>
          have htext := Base64.decode_trim_eq_ok_iff.mp hdecode
          simp only [Except.ok.injEq, Option.some.injEq]
          constructor
          · rintro rfl
            exact ⟨rfl, by simpa using hne, htext⟩
          · rintro ⟨rfl, _, hvalue⟩
            rw [Base64.decode_trim_eq_ok_iff.mpr hvalue, Except.ok.injEq] at hdecode
            rw [← hdecode]

/-- The tag of a root has its name, and declares the namespace of the documents or
none. -/
structure IsRootTag (name : String) (tag : Tag) : Prop where
  named : tag.localName = name
  xmlns : ∀ found, tag.attribute? "xmlns" = some found → found = xmlNamespace

theorem checkRoot_eq_ok_iff {root : String} {tag : Tag} {u : Unit} :
    checkRoot root tag = .ok u ↔ IsRootTag root tag := by
  unfold checkRoot
  by_cases hname : tag.localName = root
  · rw [if_neg (not_not_intro hname)]
    cases hxmlns : tag.attribute? "xmlns" with
    | none => exact ⟨fun _ => ⟨hname, by simp [hxmlns]⟩, fun _ => rfl⟩
    | some found =>
        simp only [ite_error_eq_ok_iff, and_true]
        exact ⟨fun h => ⟨hname, by simpa [hxmlns] using h⟩, fun h => h.xmlns found hxmlns⟩
  · rw [if_pos hname]
    exact iff_of_false (by rintro ⟨⟩) fun h => hname h.named

theorem DependencyFields.complete_eq_ok_iff {fields : DependencyFields} {d : Dependency} :
    fields.complete = .ok d ↔
      fields = ⟨some d.name, some d.version, d.type, some d.signers⟩ ∧
        Text.allBlank d.name = false := by
  obtain ⟨name, version, type, signers⟩ := fields
  cases name with
  | none => simp [complete]
  | some name =>
      cases hblank : Text.allBlank name with
      | true =>
          simp only [complete, hblank, if_true, reduceCtorEq, DependencyFields.mk.injEq,
            Option.some.injEq, false_iff]
          rintro ⟨⟨rfl, _⟩, hname⟩
          exact absurd (hblank.symm.trans hname) Bool.noConfusion
      | false =>
          cases version <;> cases signers <;>
            simp only [complete, hblank, Bool.false_eq_true, if_false, reduceCtorEq,
              DependencyFields.mk.injEq, Option.some.injEq, Except.ok.injEq, false_and, and_false]
          constructor
          · rintro rfl
            exact ⟨⟨rfl, rfl, rfl, rfl⟩, hblank⟩
          · rintro ⟨⟨rfl, rfl, rfl, rfl⟩, _⟩
            rfl

theorem ConstraintFields.complete_eq_ok_iff {fields : ConstraintFields} {c : Constraint} :
    fields.complete = .ok c ↔
      fields = ⟨some c.fileName, some c.hash⟩ ∧ Text.allBlank c.fileName = false := by
  obtain ⟨fileName, hash⟩ := fields
  cases fileName with
  | none => simp [complete]
  | some fileName =>
      cases hblank : Text.allBlank fileName with
      | true =>
          simp only [complete, hblank, if_true, reduceCtorEq, ConstraintFields.mk.injEq,
            Option.some.injEq, false_iff]
          rintro ⟨⟨rfl, _⟩, hname⟩
          exact absurd (hblank.symm.trans hname) Bool.noConfusion
      | false =>
          cases hash <;>
            simp only [complete, hblank, Bool.false_eq_true, if_false, reduceCtorEq,
              ConstraintFields.mk.injEq, Option.some.injEq, Except.ok.injEq, false_and, and_false]
          constructor
          · rintro rfl
            exact ⟨⟨rfl, rfl⟩, hblank⟩
          · rintro ⟨⟨rfl, rfl⟩, _⟩
            rfl

end CpkProvenance.Document
