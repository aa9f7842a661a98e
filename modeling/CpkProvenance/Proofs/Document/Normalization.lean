import CpkProvenance.Proofs.Document.ConstraintGrammar
import CpkProvenance.Proofs.Document.ConstraintRoundTrip

/-!
# Reading normalizes

Many texts say the same: values may be written as literal data or by references,
comments may split them, fields may change places. Whatever a reader accepts is a
document that can be written and read back, so writing what was read brings a text
into a normal form. Two texts say the same exactly if they have the same normal form.
-/

namespace CpkProvenance.Document

open Xml (Content Event)

section Grammar

variable {α : Type} {p : α → Prop} {element : List Event → α → Prop} {es : List Event}

/-- What holds of each element holds of elements that follow each other. -/
theorem Spaced.forall_mem (helement : ∀ es v, element es v → p v) {vs : List α}
    (h : Spaced element es vs) : ∀ v ∈ vs, p v := by
  induction h with
  | nil => exact List.forall_mem_nil p
  | blank _ _ ih => exact ih
  | cons first _ ih => exact List.forall_mem_cons.mpr ⟨helement _ _ first, ih⟩

theorem Root.forall_mem {name : String} (helement : ∀ es v, element es v → p v) {vs : List α}
    (h : Root name element es vs) : ∀ v ∈ vs, p v := by
  cases h with
  | empty _ => exact List.forall_mem_nil p
  | full _ inner => exact inner.forall_mem helement

/-- The hash that an element gives has a named algorithm. -/
theorem Signer.algorithm_ne {hash : HashValue} (h : Signer es hash) : hash.algorithm ≠ "" := by
  cases h with
  | mk _ _ _ nonempty _ => exact nonempty

theorem FileHash.algorithm_ne {hash : HashValue} (h : FileHash es hash) :
    hash.algorithm ≠ "" := by
  cases h with
  | mk _ _ _ nonempty _ => exact nonempty

theorem SignerList.algorithms_ne {signers : Signers} (h : SignerList es signers) :
    ∀ hash ∈ signers.hashes, hash.algorithm ≠ "" := by
  cases h with
  | sameAsMe _ => exact List.forall_mem_nil _
  | hashes h => exact h.forall_mem fun _ _ hsigner => hsigner.algorithm_ne

/-- The signers that a field gives, if it gives signers, have named algorithms. -/
theorem FieldElement.algorithms_ne {field : Field} (h : FieldElement es field) :
    ∀ signers, field = .signers signers → ∀ hash ∈ signers.hashes, hash.algorithm ≠ "" := by
  intro signers hfield
  cases h with
  | text _ => cases hfield
  | noSigners _ =>
      cases hfield
      exact List.forall_mem_nil _
  | signers h =>
      cases hfield
      cases h with
      | mk _ h => exact h.algorithms_ne

theorem mem_of_mem_fieldSigners {signers : Signers} {fields : List Field}
    (h : signers ∈ fieldSigners fields) : .signers signers ∈ fields := by
  obtain ⟨field, hfield, hsome⟩ := List.mem_filterMap.mp h
  cases field with
  | text _ _ => cases hsome
  | signers found =>
      obtain rfl := Option.some.inj hsome
      exact hfield

theorem DependencyRecord.isReadable {d : Dependency} (h : DependencyRecord es d) :
    d.IsReadable := by
  cases h with
  | @mk fields _ hfields all =>
      have hsigners : Field.signers d.signers ∈ fields := by
        apply mem_of_mem_fieldSigners
        rw [all.signers]
        exact List.mem_singleton_self d.signers
      have halgorithms := hfields.forall_mem fun _ _ hfield => hfield.algorithms_ne
      exact ⟨all.visible, halgorithms _ hsigners d.signers rfl⟩

theorem ConstraintRecord.isReadable {c : Constraint} (h : ConstraintRecord es c) :
    c.IsReadable := by
  have hnamed (es : List Event) (field : ConstraintField)
      (hfield : ConstraintFieldElement es field) :
      ∀ hash, field = .hash hash → hash.algorithm ≠ "" := by
    intro hash heq
    cases hfield with
    | fileName _ => cases heq
    | hash h =>
        cases heq
        exact h.algorithm_ne
  refine ⟨h.visible, ?_⟩
  rcases h.fields with hfields | hfields
  · exact hfields.forall_mem hnamed _ (by simp) c.hash rfl
  · exact hfields.forall_mem hnamed _ (by simp) c.hash rfl

end Grammar

section Readers

variable {α : Type} {p : α → Prop} {inner : List Event → α → Prop}

/-- All that is read from a text is what the reader of one record gives. -/
theorem forall_mem_of_readRoot {root name missing : String} {item : Content → Except Fault α}
    (hbalanced : ∀ es v, inner es v → IsBalanced es)
    (hitem : ∀ body v, item body = .ok v ↔ Xml.Content.EndsIn .close body ∧ inner body.events v)
    (hinner : ∀ es v, inner es v → p v) {r : Xml.Reading} {vs : List α}
    (h : readRoot root name missing item (Content.ofReading r) = .ok vs) : ∀ v ∈ vs, p v := by
  obtain ⟨_, hroot⟩ := (readRoot_ofReading_eq_ok_iff hbalanced hitem).mp h
  have hrecord (es : List Event) (v : α) (hv : Element name inner es v) : p v := by
    cases hv with
    | mk _ hv => exact hinner _ _ hv
  exact hroot.forall_mem (fun _ _ hvs => hvs.forall_mem hrecord) vs (List.mem_singleton_self vs)

theorem Dependencies.isReadable_of_ofXml {xml : String} {d : Dependencies}
    (h : Dependencies.ofXml xml = .ok d) : ∀ r ∈ d.dependencies, r.IsReadable := by
  obtain ⟨records, hrecords, hd⟩ := bind_eq_ok_iff.mp h
  obtain rfl := Except.ok.inj hd
  exact forall_mem_of_readRoot (fun es r (hr : DependencyRecord es r) => hr.isBalanced)
    (fun _ _ => readDependency_eq_ok_iff) (fun _ _ hr => hr.isReadable) hrecords

theorem Constraints.isReadable_of_ofXml {xml : String} {d : Constraints}
    (h : Constraints.ofXml xml = .ok d) : ∀ c ∈ d.constraints, c.IsReadable := by
  obtain ⟨records, hrecords, hd⟩ := bind_eq_ok_iff.mp h
  obtain rfl := Except.ok.inj hd
  exact forall_mem_of_readRoot (fun es c (hc : ConstraintRecord es c) => hc.isBalanced)
    (fun _ _ => readConstraint_eq_ok_iff) (fun _ _ hc => hc.isReadable) hrecords

end Readers

section Normalization

variable {α : Type}

/-- The normal form of a text: what it says, written again. -/
def normalForm (read : String → Except Fault α) (write : α → String) (xml : String) :
    Except Fault String :=
  (read xml).map write

/-- Reading a text and writing what it says gives its normal form. -/
structure Normalizes (read : String → Except Fault α) (write : α → String)
    (IsReadable : α → Prop) : Prop where
  /-- What is read could be written and read back. -/
  readable : ∀ xml d, read xml = .ok d → IsReadable d
  /-- And it is read back. -/
  restored : ∀ xml d, read xml = .ok d → read (write d) = .ok d
  /-- A normal form is its own normal form. -/
  idempotent : ∀ xml text, normalForm read write xml = .ok text →
    normalForm read write text = .ok text
  /-- Texts that say the same have the same normal form, and no others. -/
  faithful : ∀ xml other d e, read xml = .ok d → read other = .ok e →
    (d = e ↔ normalForm read write xml = normalForm read write other)

/-- It is enough that what is read can be read back when it is written. -/
theorem normalizes_of_readable {read : String → Except Fault α} {write : α → String}
    {IsReadable : α → Prop} (hread : ∀ xml d, read xml = .ok d → IsReadable d)
    (hwrite : ∀ d, IsReadable d → read (write d) = .ok d) : Normalizes read write IsReadable := by
  have hrestored (xml : String) (d : α) (h : read xml = .ok d) : read (write d) = .ok d :=
    hwrite d (hread xml d h)
  refine ⟨hread, hrestored, fun xml text htext => ?_, fun xml other d e hd he => ?_⟩
  · obtain ⟨d, hd, rfl⟩ := map_eq_ok_iff.mp htext
    exact map_eq_ok_iff.mpr ⟨d, hrestored xml d hd, rfl⟩
  · rw [normalForm, normalForm, hd, he, ok_map, ok_map, Except.ok.injEq]
    constructor
    · exact congrArg write
    · intro hsame
      have hback := hrestored xml d hd
      rw [hsame, hrestored other e he] at hback
      exact (Except.ok.inj hback).symm

/-- **Reading normalizes both documents.** -/
theorem normalizes_ofXml :
    Normalizes Dependencies.ofXml Dependencies.toXml
      (fun d => ∀ r ∈ d.dependencies, r.IsReadable) ∧
    Normalizes Constraints.ofXml Constraints.toXml
      (fun d => ∀ c ∈ d.constraints, c.IsReadable) := by
  constructor
  · exact normalizes_of_readable (fun _ _ => Dependencies.isReadable_of_ofXml)
      fun _ h => Dependencies.ofXml_toXml_eq_ok_iff.mpr ⟨rfl, h⟩
  · exact normalizes_of_readable (fun _ _ => Constraints.isReadable_of_ofXml)
      fun _ h => Constraints.ofXml_toXml_eq_ok_iff.mpr ⟨rfl, h⟩

/-- A comment and a reference to a space leave no trace. -/
example : (normalForm Dependencies.ofXml Dependencies.toXml
    "<cpkDependencies><!-- -->&#32;</cpkDependencies>").toOption =
    some (Dependencies.toXml ⟨[]⟩) := by
  decide +kernel

end Normalization

end CpkProvenance.Document
