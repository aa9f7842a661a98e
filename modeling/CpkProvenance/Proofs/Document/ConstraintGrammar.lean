import CpkProvenance.Proofs.Document.DependencyGrammar

/-!
# The grammar of constraints

What the reader of constraints accepts as the content of one constraint: the name of
a file and its hash, in either order, each exactly once and with nothing but blank
text around them. The name may be an empty element, but it must not be blank, so such
a constraint is no constraint after all; a hash must have a text. A document is a root
with any number of constraints, and the reader accepts nothing else.
-/

namespace CpkProvenance.Document

open Xml (Content Event Tag)
open Xml.Content (EndsIn)

section Grammar

/-- The element of the hash of a file. Its algorithm is named, and its text is Base64. -/
inductive FileHash : List Event → HashValue → Prop
  | mk {tag : Tag} {es : List Event} {text : String} {hash : HashValue}
      (named : tag.localName = "hash") (texts : Texts es text)
      (algorithm : tag.attribute? "algorithm" = some hash.algorithm)
      (nonempty : hash.algorithm ≠ "") (value : Text.trim text = Base64.encodeText hash.value) :
      FileHash (enclosed tag es) hash

/-- A field of a constraint. -/
inductive ConstraintField
  | fileName (text : String)
  | hash (hash : HashValue)

/-- The element of a field of a constraint. -/
inductive ConstraintFieldElement : List Event → ConstraintField → Prop
  | fileName {es : List Event} {text : String} (h : Leaf "fileName" es text) :
      ConstraintFieldElement es (.fileName text)
  | hash {es : List Event} {hash : HashValue} (h : FileHash es hash) :
      ConstraintFieldElement es (.hash hash)

/-- What the element of a constraint holds: its two fields, in either order. -/
structure ConstraintRecord (es : List Event) (c : Constraint) : Prop where
  fields : Spaced ConstraintFieldElement es [.fileName c.fileName, .hash c.hash] ∨
    Spaced ConstraintFieldElement es [.hash c.hash, .fileName c.fileName]
  visible : Text.allBlank c.fileName = false

/-- The events of a document of constraints: one root, with blank text around it. -/
def IsConstraintDocument (es : List Event) (d : Constraints) : Prop :=
  Spaced (Root "dependencyConstraints" (Element "dependencyConstraint" ConstraintRecord)) es
    [d.constraints]

end Grammar

section Elements

variable {tag : Tag} {es : List Event}

theorem FileHash.isNode {hash : HashValue} (h : FileHash es hash) : IsNode es := by
  cases h with
  | mk _ texts => exact .enclosed _ texts.isBalanced

theorem ConstraintFieldElement.isNode {field : ConstraintField}
    (h : ConstraintFieldElement es field) : IsNode es := by
  cases h with
  | fileName h => exact h.isNode
  | hash h => exact h.isNode

theorem ConstraintRecord.isBalanced {c : Constraint} (h : ConstraintRecord es c) :
    IsBalanced es := by
  rcases h.fields with h | h
  · exact h.isBalanced fun _ _ => ConstraintFieldElement.isNode
  · exact h.isBalanced fun _ _ => ConstraintFieldElement.isNode

theorem fileHash_enclosed_iff {hash : HashValue} :
    FileHash (enclosed tag es) hash ↔
      tag.localName = "hash" ∧ ∃ text, Texts es text ∧ hashValue tag text = .ok hash := by
  simp only [hashValue_eq_ok_iff]
  constructor
  · intro h
    generalize henclosed : enclosed tag es = all at h
    cases h with
    | mk named texts algorithm nonempty value =>
        obtain ⟨rfl, rfl⟩ := enclosed_inj henclosed
        exact ⟨named, _, texts, algorithm, nonempty, value⟩
  · rintro ⟨named, text, texts, algorithm, nonempty, value⟩
    exact .mk named texts algorithm nonempty value

theorem constraintFieldElement_emptyTag_iff {field : ConstraintField} :
    ConstraintFieldElement [.emptyTag tag] field ↔
      tag.localName = "fileName" ∧ field = .fileName "" := by
  constructor
  · intro h
    generalize hevents : [Event.emptyTag tag] = all at h
    cases h with
    | fileName h =>
        subst hevents
        obtain ⟨hname, rfl⟩ := leaf_emptyTag_iff.mp h
        exact ⟨hname, rfl⟩
    | hash h =>
        cases h with
        | mk => cases hevents
  · rintro ⟨hname, rfl⟩
    exact .fileName (.empty hname)

theorem constraintFieldElement_enclosed_iff {field : ConstraintField} :
    ConstraintFieldElement (enclosed tag es) field ↔
      (tag.localName = "fileName" ∧ ∃ text, Texts es text ∧ field = .fileName text) ∨
        (tag.localName = "hash" ∧
          ∃ text, Texts es text ∧ ∃ hash, hashValue tag text = .ok hash ∧ field = .hash hash) := by
  constructor
  · intro h
    generalize henclosed : enclosed tag es = all at h
    cases h with
    | fileName h =>
        subst henclosed
        obtain ⟨hname, htexts⟩ := leaf_enclosed_iff.mp h
        exact .inl ⟨hname, _, htexts, rfl⟩
    | hash h =>
        subst henclosed
        obtain ⟨hname, text, htexts, hhash⟩ := fileHash_enclosed_iff.mp h
        exact .inr ⟨hname, text, htexts, _, hhash, rfl⟩
  · rintro (⟨hname, text, htexts, rfl⟩ | ⟨hname, text, htexts, hash, hhash, rfl⟩)
    · exact .fileName (leaf_enclosed_iff.mpr ⟨hname, htexts⟩)
    · exact .hash (fileHash_enclosed_iff.mpr ⟨hname, text, htexts, hhash⟩)

end Elements

section Fields

/-- Adds a field, which must not have been read before. -/
def ConstraintFields.add? (fields : ConstraintFields) : ConstraintField → Option ConstraintFields
  | .fileName text =>
      if fields.fileName.isSome then none else some { fields with fileName := some text }
  | .hash hash => if fields.hash.isSome then none else some { fields with hash := some hash }

theorem ConstraintFields.add?_fileName_iff {fields next : ConstraintFields} {text : String} :
    fields.add? (.fileName text) = some next ↔
      fields.fileName = none ∧ next = ⟨some text, fields.hash⟩ := by
  obtain ⟨fileName, hash⟩ := fields
  cases fileName <;> simp [add?, eq_comm]

theorem ConstraintFields.add?_hash_iff {fields next : ConstraintFields} {hash : HashValue} :
    fields.add? (.hash hash) = some next ↔
      fields.hash = none ∧ next = ⟨fields.fileName, some hash⟩ := by
  obtain ⟨fileName, found⟩ := fields
  cases found <;> simp [add?, eq_comm]

variable {tag : Tag} {fields found : ConstraintFields} {body rest : Content}

theorem ConstraintFields.read_empty_eq_ok_iff :
    fields.read (.empty tag rest) = .ok found ↔
      ∃ field next, ConstraintFieldElement [.emptyTag tag] field ∧ fields.add? field = some next ∧
        next.read rest = .ok found := by
  simp only [constraintFieldElement_emptyTag_iff]
  rw [read]
  constructor
  · intro h
    split at h
    · next hname =>
        split at h
        · cases h
        · next hfree =>
            have hnone : fields.fileName = none := Option.not_isSome_iff_eq_none.mp hfree
            exact ⟨_, _, ⟨hname, rfl⟩, add?_fileName_iff.mpr ⟨hnone, rfl⟩, h⟩
    · split at h
      · split at h <;> cases h
      · cases h
  · rintro ⟨_, next, ⟨hname, rfl⟩, hadd, h⟩
    obtain ⟨hnone, rfl⟩ := add?_fileName_iff.mp hadd
    rw [if_pos hname, if_neg (by simp [hnone])]
    exact h

theorem ConstraintFields.read_element_eq_ok_iff :
    fields.read (.element tag body rest) = .ok found ↔
      EndsIn .close body ∧ ∃ field next,
        ConstraintFieldElement (enclosed tag body.events) field ∧
          fields.add? field = some next ∧ next.read rest = .ok found := by
  simp only [constraintFieldElement_enclosed_iff]
  rw [read]
  constructor
  · intro h
    split at h
    · next hname =>
        split at h
        · cases h
        · next hfree =>
            have hnone : fields.fileName = none := Option.not_isSome_iff_eq_none.mp hfree
            obtain ⟨text, htext, h⟩ := bind_eq_ok_iff.mp h
            obtain ⟨hbody, htexts⟩ := leafText_eq_ok_iff.mp htext
            exact ⟨hbody, _, _, .inl ⟨hname, text, htexts, rfl⟩,
              add?_fileName_iff.mpr ⟨hnone, rfl⟩, h⟩
    · obtain ⟨hname, h⟩ := ite_error_eq_ok_iff.mp h
      split at h
      · cases h
      · next hfree =>
          have hnone : fields.hash = none := Option.not_isSome_iff_eq_none.mp hfree
          obtain ⟨text, htext, h⟩ := bind_eq_ok_iff.mp h
          obtain ⟨hbody, htexts⟩ := leafText_eq_ok_iff.mp htext
          obtain ⟨hash, hhash, h⟩ := bind_eq_ok_iff.mp h
          exact ⟨hbody, _, _, .inr ⟨hname, text, htexts, hash, hhash, rfl⟩,
            add?_hash_iff.mpr ⟨hnone, rfl⟩, h⟩
  · rintro ⟨hbody, _, next, ⟨hname, text, htexts, rfl⟩ | ⟨hname, text, htexts, hash, hhash, rfl⟩,
      hadd, h⟩
    · obtain ⟨hnone, rfl⟩ := add?_fileName_iff.mp hadd
      rw [if_pos hname, if_neg (by simp [hnone])]
      exact bind_eq_ok_iff.mpr ⟨text, leafText_eq_ok_iff.mpr ⟨hbody, htexts⟩, h⟩
    · obtain ⟨hnone, rfl⟩ := add?_hash_iff.mp hadd
      have hother : tag.localName ≠ "fileName" := by
        rw [hname]
        decide
      rw [if_neg hother, if_pos hname, if_neg (by simp [hnone])]
      exact bind_eq_ok_iff.mpr ⟨text, leafText_eq_ok_iff.mpr ⟨hbody, htexts⟩,
        bind_eq_ok_iff.mpr ⟨hash, hhash, h⟩⟩

theorem ConstraintFields.accumulates_read :
    Accumulates ConstraintFields.read ConstraintFieldElement ConstraintFields.add? where
  isNode _ _ h := h.isNode
  close _ := rfl
  stop _ _ _ h := by cases h
  text _ _ _ _ := by rw [read, ite_error_eq_ok_iff]
  empty _ _ _ _ := read_empty_eq_ok_iff
  full _ _ _ _ _ := read_element_eq_ok_iff

/-- Nothing can be added to a constraint that has both fields. -/
theorem ConstraintFields.foldlM_add?_both_iff {fileName : String} {hash : HashValue}
    {fs : List ConstraintField} :
    fs.foldlM add? ⟨some fileName, some hash⟩ = some found ↔
      fs = [] ∧ found = ⟨some fileName, some hash⟩ := by
  cases fs with
  | nil => simp [eq_comm]
  | cons field fs =>
      rw [foldlM_cons_eq_some_iff]
      refine iff_of_false ?_ (by rintro ⟨⟨⟩, _⟩)
      rintro ⟨next, hadd, _⟩
      cases field <;> cases hadd

/-- Fields make up both if they are one of each kind. -/
theorem ConstraintFields.foldlM_add?_eq_both_iff {fileName : String} {hash : HashValue}
    {fs : List ConstraintField} :
    fs.foldlM add? {} = some ⟨some fileName, some hash⟩ ↔
      fs = [.fileName fileName, .hash hash] ∨ fs = [.hash hash, .fileName fileName] := by
  constructor
  · intro h
    rcases fs with _ | ⟨first, _ | ⟨second, rest⟩⟩
    · cases h
    · cases first <;> cases h
    · obtain ⟨one, hfirst, h⟩ := foldlM_cons_eq_some_iff.mp h
      obtain ⟨both, hsecond, h⟩ := foldlM_cons_eq_some_iff.mp h
      cases first with
      | fileName text =>
          obtain ⟨_, rfl⟩ := add?_fileName_iff.mp hfirst
          cases second with
          | fileName other => cases hsecond
          | hash hash =>
              obtain ⟨_, rfl⟩ := add?_hash_iff.mp hsecond
              obtain ⟨rfl, hfound⟩ := foldlM_add?_both_iff.mp h
              cases hfound
              exact .inl rfl
      | hash hash =>
          obtain ⟨_, rfl⟩ := add?_hash_iff.mp hfirst
          cases second with
          | fileName text =>
              obtain ⟨_, rfl⟩ := add?_fileName_iff.mp hsecond
              obtain ⟨rfl, hfound⟩ := foldlM_add?_both_iff.mp h
              cases hfound
              exact .inr rfl
          | hash other => cases hsecond
  · rintro (rfl | rfl) <;> rfl

/-- The content of a constraint is read if it is one. -/
theorem readConstraint_eq_ok_iff {c : Content} {k : Constraint} :
    readConstraint c = .ok k ↔ EndsIn .close c ∧ ConstraintRecord c.events k := by
  simp only [readConstraint, bind_eq_ok_iff, ConstraintFields.complete_eq_ok_iff,
    ConstraintFields.accumulates_read.eq_ok_iff]
  constructor
  · rintro ⟨_, ⟨hend, fs, hfields, hfold⟩, rfl, hvisible⟩
    rcases ConstraintFields.foldlM_add?_eq_both_iff.mp hfold with rfl | rfl
    · exact ⟨hend, .inl hfields, hvisible⟩
    · exact ⟨hend, .inr hfields, hvisible⟩
  · rintro ⟨hend, hfields | hfields, hvisible⟩
    · exact ⟨_, ⟨hend, _, hfields, rfl⟩, rfl, hvisible⟩
    · exact ⟨_, ⟨hend, _, hfields, rfl⟩, rfl, hvisible⟩

end Fields

section Document

/-- **The reader of constraints accepts exactly its grammar**: the text must be cut into
pieces up to its end, and the events of its content, with comments, instructions and document
types dropped, must be a document of what is read. -/
theorem Constraints.ofXml_eq_ok_iff_isConstraintDocument {xml : String} {d : Constraints} :
    Constraints.ofXml xml = .ok d ↔
      ∃ events, Xml.IsReadAs xml.toList events ∧ IsConstraintDocument events d := by
  obtain ⟨constraints⟩ := d
  rw [Xml.exists_isReadAs_iff]
  simp only [ofXml, ofContent, Content.ofText, bind_eq_ok_iff, pure, Except.pure, Except.ok.injEq,
    Constraints.mk.injEq, exists_eq_right]
  exact readRoot_ofReading_eq_ok_iff (fun _ _ => ConstraintRecord.isBalanced)
    fun _ _ => readConstraint_eq_ok_iff

end Document

end CpkProvenance.Document
