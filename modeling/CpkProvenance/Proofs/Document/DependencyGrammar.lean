import CpkProvenance.Proofs.Document.Grammar

/-!
# The grammar of dependencies

The reader of dependencies accepts exactly a grammar. The fields of a record may
stand in any order; all but the type are required, and none may be repeated. A list
of signers is either one element that says so, or hashes.
-/

namespace CpkProvenance.Document

open Xml (Content Event Tag)
open Xml.Content (EndsIn)

section Grammar

/-- The element for signers that are the same as those of the whole. -/
def SameAsMe (es : List Event) (_ : Unit) : Prop :=
  ∃ text, Leaf "sameAsMe" es text ∧ Text.allBlank text = true

/-- The element of a hash. Its algorithm is named, and its text is Base64. -/
inductive Signer : List Event → HashValue → Prop
  | mk {tag : Tag} {es : List Event} {text : String} {hash : HashValue}
      (named : tag.localName = "signer") (texts : Texts es text)
      (algorithm : tag.attribute? "algorithm" = some hash.algorithm)
      (nonempty : hash.algorithm ≠ "") (value : Text.trim text = Base64.encodeText hash.value) :
      Signer (enclosed tag es) hash

/-- What a list of signers holds. -/
inductive SignerList : List Event → Signers → Prop
  | sameAsMe {es : List Event} (h : Spaced SameAsMe es [()]) : SignerList es .sameAsMe
  | hashes {es : List Event} {hashes : List HashValue} (h : Spaced Signer es hashes) :
      SignerList es (.publicKeyHashes hashes)

/-- The fields of a record that are texts. -/
inductive TextField
  | name
  | version
  | type
  deriving DecidableEq

/-- The name of the element of a text. -/
def TextField.tag : TextField → String
  | .name => "name"
  | .version => "version"
  | .type => "type"

/-- A field of a record: one of its texts, or its signers. -/
inductive Field
  | text (field : TextField) (text : String)
  | signers (signers : Signers)

/-- The element of a field. An empty element is an empty text or list. -/
inductive FieldElement : List Event → Field → Prop
  | text {field : TextField} {es : List Event} {text : String} (h : Leaf field.tag es text) :
      FieldElement es (.text field text)
  | noSigners {tag : Tag} (h : tag.localName = "signers") :
      FieldElement [.emptyTag tag] (.signers (.publicKeyHashes []))
  | signers {es : List Event} {signers : Signers} (h : Element "signers" SignerList es signers) :
      FieldElement es (.signers signers)

/-- The texts that fields give one of the texts, in their order. -/
def fieldTexts (wanted : TextField) (fields : List Field) : List String :=
  fields.filterMap fun
    | .text field text => if field = wanted then some text else none
    | .signers _ => none

/-- The lists of signers among fields. -/
def fieldSigners (fields : List Field) : List Signers :=
  fields.filterMap fun
    | .text _ _ => none
    | .signers signers => some signers

/-- The fields of a record, in any order. -/
structure AreFieldsOf (d : Dependency) (fields : List Field) : Prop where
  name : fieldTexts .name fields = [d.name]
  version : fieldTexts .version fields = [d.version]
  type : fieldTexts .type fields = d.type.toList
  signers : fieldSigners fields = [d.signers]
  visible : Text.allBlank d.name = false

/-- What the element of a dependency holds. -/
inductive DependencyRecord : List Event → Dependency → Prop
  | mk {es : List Event} {fields : List Field} {d : Dependency}
      (h : Spaced FieldElement es fields) (all : AreFieldsOf d fields) : DependencyRecord es d

/-- The events of a document of dependencies: one root, with blank text around it. -/
def IsDependencyDocument (es : List Event) (d : Dependencies) : Prop :=
  Spaced (Root "cpkDependencies" (Element "cpkDependency" DependencyRecord)) es [d.dependencies]

end Grammar

section Nodes

theorem SameAsMe.isNode {es : List Event} {u : Unit} (h : SameAsMe es u) : IsNode es := by
  obtain ⟨_, h, _⟩ := h
  exact h.isNode

theorem Signer.isNode {es : List Event} {hash : HashValue} (h : Signer es hash) : IsNode es := by
  cases h with
  | mk _ texts => exact .enclosed _ texts.isBalanced

theorem SignerList.isBalanced {es : List Event} {signers : Signers} (h : SignerList es signers) :
    IsBalanced es := by
  cases h with
  | sameAsMe h => exact h.isBalanced fun _ _ => SameAsMe.isNode
  | hashes h => exact h.isBalanced fun _ _ => Signer.isNode

theorem FieldElement.isNode {es : List Event} {field : Field} (h : FieldElement es field) :
    IsNode es := by
  cases h with
  | text h => exact h.isNode
  | noSigners _ => exact .empty _
  | signers h => exact h.isNode fun _ _ => SignerList.isBalanced

theorem DependencyRecord.isBalanced {es : List Event} {d : Dependency}
    (h : DependencyRecord es d) : IsBalanced es := by
  cases h with
  | mk h _ => exact h.isBalanced fun _ _ => FieldElement.isNode

end Nodes

section Elements

variable {tag : Tag} {es : List Event}

theorem signer_enclosed_iff {hash : HashValue} :
    Signer (enclosed tag es) hash ↔
      tag.localName = "signer" ∧ ∃ text, Texts es text ∧ hashValue tag text = .ok hash := by
  simp only [hashValue_eq_ok_iff]
  constructor
  · intro h
    generalize henclosed : enclosed tag es = all at h
    cases h with
    | mk named texts algorithm nonempty value =>
        obtain ⟨rfl, rfl⟩ := enclosed_inj henclosed
        exact ⟨named, _, texts, algorithm, nonempty, value⟩
  · rintro ⟨named, text, texts, algorithm, nonempty, value⟩
    exact .mk named texts algorithm nonempty value

theorem not_signer_emptyTag {hash : HashValue} : ¬ Signer [.emptyTag tag] hash := by
  intro h
  generalize hevents : [Event.emptyTag tag] = all at h
  cases h with
  | mk => cases hevents

theorem sameAsMe_emptyTag_iff {u : Unit} :
    SameAsMe [.emptyTag tag] u ↔ tag.localName = "sameAsMe" := by
  constructor
  · rintro ⟨_, h, _⟩
    exact (leaf_emptyTag_iff.mp h).1
  · intro h
    exact ⟨"", .empty h, rfl⟩

theorem sameAsMe_enclosed_iff {u : Unit} :
    SameAsMe (enclosed tag es) u ↔
      tag.localName = "sameAsMe" ∧ ∃ text, Texts es text ∧ Text.allBlank text = true := by
  simp only [SameAsMe, leaf_enclosed_iff, and_assoc, exists_and_left]

end Elements

section Signers

/-- An element of a list of signers: that of a hash, or the one for the same signers. -/
inductive SignerElement : List Event → Option HashValue → Prop
  | sameAsMe {es : List Event} (h : SameAsMe es ()) : SignerElement es none
  | signer {es : List Event} {hash : HashValue} (h : Signer es hash) : SignerElement es (some hash)

/-- Hashes may follow each other. The element for the same signers stands alone. -/
def Signers.add? : Signers → Option HashValue → Option Signers
  | .publicKeyHashes [], none => some .sameAsMe
  | .publicKeyHashes hashes, some hash => some (.publicKeyHashes (hashes ++ [hash]))
  | _, _ => none

theorem signerElement_none_iff {es : List Event} {u : Unit} :
    SignerElement es none ↔ SameAsMe es u := by
  constructor
  · intro h
    cases h with
    | sameAsMe h => exact h
  · exact .sameAsMe

theorem signerElement_some_iff {es : List Event} {hash : HashValue} :
    SignerElement es (some hash) ↔ Signer es hash := by
  constructor
  · intro h
    cases h with
    | signer h => exact h
  · exact .signer

theorem SignerElement.isNode {es : List Event} {v : Option HashValue} (h : SignerElement es v) :
    IsNode es := by
  cases h with
  | sameAsMe h => exact h.isNode
  | signer h => exact h.isNode

theorem Signers.add?_none_eq_some_iff {sofar next : Signers} :
    sofar.add? none = some next ↔ sofar = .publicKeyHashes [] ∧ next = .sameAsMe := by
  cases sofar with
  | sameAsMe => simp [add?]
  | publicKeyHashes hashes => cases hashes <;> simp [add?, eq_comm]

theorem Signers.add?_some_eq_some_iff {sofar next : Signers} {hash : HashValue} :
    sofar.add? (some hash) = some next ↔
      ∃ hashes, sofar = .publicKeyHashes hashes ∧ next = .publicKeyHashes (hashes ++ [hash]) := by
  cases sofar <;> simp [add?, eq_comm]

theorem readSigners_empty_eq_ok_iff {sofar signers : Signers} {tag : Tag} {rest : Content} :
    readSigners sofar (.empty tag rest) = .ok signers ↔
      ∃ v next, SignerElement [.emptyTag tag] v ∧ sofar.add? v = some next ∧
        readSigners next rest = .ok signers := by
  rw [readSigners]
  constructor
  · intro h
    split at h
    · next hsame =>
        obtain ⟨hnil, h⟩ := ite_error_eq_ok_iff.mp h
        exact ⟨none, _, .sameAsMe (sameAsMe_emptyTag_iff.mpr hsame),
          Signers.add?_none_eq_some_iff.mpr ⟨hnil, rfl⟩, h⟩
    · split at h <;> cases h
  · rintro ⟨v, next, hv, hadd, h⟩
    cases hv with
    | sameAsMe hv =>
        obtain ⟨rfl, rfl⟩ := Signers.add?_none_eq_some_iff.mp hadd
        rw [if_pos (sameAsMe_emptyTag_iff.mp hv), if_pos rfl]
        exact h
    | signer hv => exact absurd hv not_signer_emptyTag

theorem readSigners_element_eq_ok_iff {sofar signers : Signers} {tag : Tag} {body rest : Content} :
    readSigners sofar (.element tag body rest) = .ok signers ↔
      EndsIn .close body ∧ ∃ v next, SignerElement (enclosed tag body.events) v ∧
        sofar.add? v = some next ∧ readSigners next rest = .ok signers := by
  rw [readSigners.eq_def]
  dsimp only
  constructor
  · intro h
    split at h
    · next hsame =>
        obtain ⟨hnil, h⟩ := ite_error_eq_ok_iff.mp h
        obtain ⟨text, htext, h⟩ := bind_eq_ok_iff.mp h
        obtain ⟨hbody, htexts⟩ := leafText_eq_ok_iff.mp htext
        obtain ⟨hblank, h⟩ := ite_error_eq_ok_iff.mp h
        exact ⟨hbody, none, _, .sameAsMe (sameAsMe_enclosed_iff.mpr ⟨hsame, text, htexts, hblank⟩),
          Signers.add?_none_eq_some_iff.mpr ⟨hnil, rfl⟩, h⟩
    · obtain ⟨hsigner, h⟩ := ite_error_eq_ok_iff.mp h
      cases sofar with
      | sameAsMe => cases h
      | publicKeyHashes hashes =>
          obtain ⟨text, htext, h⟩ := bind_eq_ok_iff.mp h
          obtain ⟨hbody, htexts⟩ := leafText_eq_ok_iff.mp htext
          obtain ⟨hash, hhash, h⟩ := bind_eq_ok_iff.mp h
          exact ⟨hbody, some hash, _, .signer (signer_enclosed_iff.mpr ⟨hsigner, text, htexts, hhash⟩),
            Signers.add?_some_eq_some_iff.mpr ⟨hashes, rfl, rfl⟩, h⟩
  · rintro ⟨hbody, v, next, hv, hadd, h⟩
    cases hv with
    | sameAsMe hv =>
        obtain ⟨rfl, rfl⟩ := Signers.add?_none_eq_some_iff.mp hadd
        obtain ⟨hsame, text, htexts, hblank⟩ := sameAsMe_enclosed_iff.mp hv
        rw [if_pos hsame, if_pos rfl]
        refine bind_eq_ok_iff.mpr ⟨text, leafText_eq_ok_iff.mpr ⟨hbody, htexts⟩, ?_⟩
        rw [if_pos hblank]
        exact h
    | @signer hash hv =>
        obtain ⟨hashes, rfl, rfl⟩ := Signers.add?_some_eq_some_iff.mp hadd
        obtain ⟨hsigner, text, htexts, hhash⟩ := signer_enclosed_iff.mp hv
        have hother : tag.localName ≠ "sameAsMe" := by
          rw [hsigner]
          decide
        rw [if_neg hother, if_pos hsigner]
        exact bind_eq_ok_iff.mpr ⟨text, leafText_eq_ok_iff.mpr ⟨hbody, htexts⟩,
          bind_eq_ok_iff.mpr ⟨hash, hhash, h⟩⟩

theorem accumulates_readSigners : Accumulates readSigners SignerElement Signers.add? where
  isNode _ _ h := h.isNode
  close _ := rfl
  stop _ _ _ h := by cases h
  text _ _ _ _ := by rw [readSigners, ite_error_eq_ok_iff]
  empty _ _ _ _ := readSigners_empty_eq_ok_iff
  full _ _ _ _ _ := readSigners_element_eq_ok_iff

theorem foldlM_add?_sameAsMe_iff {vs : List (Option HashValue)} {signers : Signers} :
    vs.foldlM Signers.add? .sameAsMe = some signers ↔ vs = [] ∧ signers = .sameAsMe := by
  cases vs with
  | nil => simp [eq_comm]
  | cons v vs => cases v <;> simp [Signers.add?]

/-- After hashes only hashes may follow. The element for the same signers may only
be the first. -/
theorem foldlM_add?_hashes_iff {sofar : List HashValue} {vs : List (Option HashValue)}
    {signers : Signers} :
    vs.foldlM Signers.add? (.publicKeyHashes sofar) = some signers ↔
      (∃ hashes, vs = hashes.map some ∧ signers = .publicKeyHashes (sofar ++ hashes)) ∨
        (sofar = [] ∧ vs = [none] ∧ signers = .sameAsMe) := by
  induction vs generalizing sofar with
  | nil =>
      constructor
      · intro h
        obtain rfl := Option.some.inj h
        exact .inl ⟨[], rfl, by rw [List.append_nil]⟩
      · rintro (⟨hashes, h, rfl⟩ | ⟨_, h, _⟩)
        · obtain rfl := List.map_eq_nil_iff.mp h.symm
          rw [List.append_nil]
          rfl
        · cases h
  | cons v vs ih =>
      rw [foldlM_cons_eq_some_iff]
      cases v with
      | none =>
          simp only [Signers.add?_none_eq_some_iff, Signers.publicKeyHashes.injEq]
          constructor
          · rintro ⟨_, ⟨rfl, rfl⟩, h⟩
            obtain ⟨rfl, rfl⟩ := foldlM_add?_sameAsMe_iff.mp h
            exact .inr ⟨rfl, rfl, rfl⟩
          · rintro (⟨hashes, h, _⟩ | ⟨rfl, h, rfl⟩)
            · obtain ⟨_, _, _, h, _⟩ := List.map_eq_cons_iff.mp h.symm
              cases h
            · obtain rfl := (List.cons.inj h).2
              exact ⟨_, ⟨rfl, rfl⟩, rfl⟩
      | some hash =>
          simp only [Signers.add?, Option.some.injEq, exists_eq_left', ih]
          constructor
          · rintro (⟨hashes, rfl, rfl⟩ | ⟨h, _⟩)
            · exact .inl ⟨hash :: hashes, rfl, by rw [List.append_assoc, List.singleton_append]⟩
            · exact absurd h (List.append_ne_nil_of_right_ne_nil _ (List.cons_ne_nil _ _))
          · rintro (⟨hashes, h, rfl⟩ | ⟨_, h, _⟩)
            · obtain ⟨_, others, rfl, hfirst, rfl⟩ := List.map_eq_cons_iff.mp h.symm
              obtain rfl := Option.some.inj hfirst
              exact .inl ⟨others, rfl, by rw [List.append_assoc, List.singleton_append]⟩
            · cases h

/-- A list of signers is read if it is one. -/
theorem readSigners_eq_ok_iff {c : Content} {signers : Signers} :
    readSigners (.publicKeyHashes []) c = .ok signers ↔
      EndsIn .close c ∧ SignerList c.events signers := by
  rw [accumulates_readSigners.eq_ok_iff]
  refine and_congr_right fun _ => ?_
  simp only [foldlM_add?_hashes_iff]
  constructor
  · rintro ⟨_, h, ⟨hashes, rfl, rfl⟩ | ⟨_, rfl, rfl⟩⟩
    · exact .hashes ((spaced_map_iff fun _ _ => signerElement_some_iff).mp h)
    · exact .sameAsMe ((spaced_map_iff fun _ _ => signerElement_none_iff).mp h)
  · intro h
    cases h with
    | sameAsMe h =>
        exact ⟨[none], (spaced_map_iff fun _ _ => signerElement_none_iff).mpr h,
          .inr ⟨trivial, rfl, rfl⟩⟩
    | @hashes hashes h =>
        exact ⟨hashes.map some, (spaced_map_iff fun _ _ => signerElement_some_iff).mpr h,
          .inl ⟨hashes, rfl, rfl⟩⟩

end Signers

section Fields

/-- The name of the element of a field. -/
def Field.tag : Field → String
  | .text field _ => field.tag
  | .signers _ => "signers"

def DependencyFields.set (fields : DependencyFields) : Field → DependencyFields
  | .text .name text => { fields with name := some text }
  | .text .version text => { fields with version := some text }
  | .text .type text => { fields with type := some text }
  | .signers signers => { fields with signers := some signers }

/-- Adds a field, which must not have been read before. -/
def DependencyFields.add? (fields : DependencyFields) (field : Field) : Option DependencyFields :=
  if fields.has field.tag = some false then some (fields.set field) else none

theorem DependencyFields.add?_eq_some_iff {fields next : DependencyFields} {field : Field} :
    fields.add? field = some next ↔
      fields.has field.tag = some false ∧ fields.set field = next := by
  unfold add?
  split <;> simp_all

theorem TextField.tag_ne_signers (field : TextField) : field.tag ≠ "signers" := by
  cases field <;> decide

theorem DependencyFields.setText_tag (fields : DependencyFields) (field : TextField)
    (text : String) : fields.setText field.tag text = fields.set (.text field text) := by
  cases field <;> rfl

/-- A known element is that of a text or of the signers. -/
theorem DependencyFields.exists_tag_of_has {fields : DependencyFields} {name : String} {b : Bool}
    (h : fields.has name = some b) (hother : name ≠ "signers") :
    ∃ field : TextField, field.tag = name := by
  unfold has at h
  split at h
  · exact ⟨.name, rfl⟩
  · exact ⟨.version, rfl⟩
  · exact ⟨.type, rfl⟩
  · exact absurd rfl hother
  · cases h

variable {tag : Tag} {es : List Event} {field : Field}

theorem fieldElement_emptyTag_iff :
    FieldElement [.emptyTag tag] field ↔
      (∃ text : TextField, tag.localName = text.tag ∧ field = .text text "") ∨
        (tag.localName = "signers" ∧ field = .signers (.publicKeyHashes [])) := by
  constructor
  · intro h
    generalize hevents : [Event.emptyTag tag] = all at h
    cases h with
    | text h =>
        subst hevents
        obtain ⟨hname, rfl⟩ := leaf_emptyTag_iff.mp h
        exact .inl ⟨_, hname, rfl⟩
    | noSigners h =>
        obtain rfl := Event.emptyTag.inj (List.cons.inj hevents).1
        exact .inr ⟨h, rfl⟩
    | signers h =>
        subst hevents
        exact absurd h not_element_emptyTag
  · rintro (⟨text, hname, rfl⟩ | ⟨h, rfl⟩)
    · exact .text (.empty hname)
    · exact .noSigners h

theorem fieldElement_enclosed_iff :
    FieldElement (enclosed tag es) field ↔
      (∃ text : TextField, tag.localName = text.tag ∧
        ∃ value, Texts es value ∧ field = .text text value) ∨
        (tag.localName = "signers" ∧ ∃ signers, SignerList es signers ∧ field = .signers signers) := by
  constructor
  · intro h
    generalize henclosed : enclosed tag es = all at h
    cases h with
    | text h =>
        subst henclosed
        obtain ⟨hname, htexts⟩ := leaf_enclosed_iff.mp h
        exact .inl ⟨_, hname, _, htexts, rfl⟩
    | noSigners h => cases henclosed
    | signers h =>
        subst henclosed
        obtain ⟨hname, hlist⟩ := element_enclosed_iff.mp h
        exact .inr ⟨hname, _, hlist, rfl⟩
  · rintro (⟨text, hname, value, htexts, rfl⟩ | ⟨hname, signers, hlist, rfl⟩)
    · exact .text (leaf_enclosed_iff.mpr ⟨hname, htexts⟩)
    · exact .signers (element_enclosed_iff.mpr ⟨hname, hlist⟩)

/-- An empty element is read as a field that is added. -/
theorem DependencyFields.read_empty_eq_ok_iff {fields found : DependencyFields} {rest : Content} :
    fields.read (.empty tag rest) = .ok found ↔
      ∃ field next, FieldElement [.emptyTag tag] field ∧ fields.add? field = some next ∧
        next.read rest = .ok found := by
  simp only [fieldElement_emptyTag_iff, add?_eq_some_iff]
  rw [read]
  constructor
  · intro h
    split at h
    · cases h
    · cases h
    · next hfree =>
        split at h
        · next hname =>
            rw [hname] at hfree
            exact ⟨_, _, .inr ⟨hname, rfl⟩, ⟨hfree, rfl⟩, h⟩
        · next hname =>
            obtain ⟨text, htag⟩ := exists_tag_of_has hfree hname
            rw [← htag] at hfree h
            rw [setText_tag] at h
            exact ⟨_, _, .inl ⟨text, htag.symm, rfl⟩, ⟨hfree, rfl⟩, h⟩
  · rintro ⟨field, next, ⟨text, hname, rfl⟩ | ⟨hname, rfl⟩, ⟨hfree, rfl⟩, h⟩
    · simp only [Field.tag] at hfree
      simp only [hname, hfree, if_neg text.tag_ne_signers, setText_tag]
      exact h
    · simp only [Field.tag] at hfree
      simp only [hname, hfree, if_true]
      exact h

theorem DependencyFields.read_element_eq_ok_iff {fields found : DependencyFields}
    {body rest : Content} :
    fields.read (.element tag body rest) = .ok found ↔
      EndsIn .close body ∧ ∃ field next, FieldElement (enclosed tag body.events) field ∧
        fields.add? field = some next ∧ next.read rest = .ok found := by
  simp only [fieldElement_enclosed_iff, add?_eq_some_iff]
  rw [read]
  constructor
  · intro h
    split at h
    · cases h
    · cases h
    · next hfree =>
        split at h
        · next hname =>
            obtain ⟨signers, hsigners, h⟩ := bind_eq_ok_iff.mp h
            obtain ⟨hbody, hlist⟩ := readSigners_eq_ok_iff.mp hsigners
            rw [hname] at hfree
            exact ⟨hbody, _, _, .inr ⟨hname, signers, hlist, rfl⟩, ⟨hfree, rfl⟩, h⟩
        · next hname =>
            obtain ⟨value, hvalue, h⟩ := bind_eq_ok_iff.mp h
            obtain ⟨hbody, htexts⟩ := leafText_eq_ok_iff.mp hvalue
            obtain ⟨text, htag⟩ := exists_tag_of_has hfree hname
            rw [← htag] at hfree h
            rw [setText_tag] at h
            exact ⟨hbody, _, _, .inl ⟨text, htag.symm, value, htexts, rfl⟩, ⟨hfree, rfl⟩, h⟩
  · rintro ⟨hbody, field, next, ⟨text, hname, value, htexts, rfl⟩ | ⟨hname, signers, hlist, rfl⟩,
      ⟨hfree, rfl⟩, h⟩
    · simp only [Field.tag] at hfree
      simp only [hname, hfree, if_neg text.tag_ne_signers, setText_tag]
      exact bind_eq_ok_iff.mpr ⟨value, leafText_eq_ok_iff.mpr ⟨hbody, htexts⟩, h⟩
    · simp only [Field.tag] at hfree
      simp only [hname, hfree, if_true]
      exact bind_eq_ok_iff.mpr ⟨signers, readSigners_eq_ok_iff.mpr ⟨hbody, hlist⟩, h⟩

theorem DependencyFields.accumulates_read :
    Accumulates DependencyFields.read FieldElement DependencyFields.add? where
  isNode _ _ h := h.isNode
  close _ := rfl
  stop _ _ _ h := by cases h
  text _ _ _ _ := by rw [read, ite_error_eq_ok_iff]
  empty _ _ _ _ := read_empty_eq_ok_iff
  full _ _ _ _ _ := read_element_eq_ok_iff

/-- Fields extend others if, slot by slot, what is found is what was there and then what
the fields hold. A slot has room for one value only. -/
@[mk_iff] structure DependencyFields.Extends (fields found : DependencyFields) (fs : List Field) :
    Prop where
  name : found.name.toList = fields.name.toList ++ fieldTexts .name fs
  version : found.version.toList = fields.version.toList ++ fieldTexts .version fs
  type : found.type.toList = fields.type.toList ++ fieldTexts .type fs
  signers : found.signers.toList = fields.signers.toList ++ fieldSigners fs

theorem toList_eq_append_cons_iff {α : Type} {found slot : Option α} {v : α} {vs : List α} :
    found.toList = slot.toList ++ v :: vs ↔ slot = none ∧ found.toList = [v] ++ vs := by
  cases slot <;> cases found <;> simp

theorem toList_eq_toList_iff {α : Type} {found slot : Option α} :
    found.toList = slot.toList ↔ slot = found := by
  cases slot <;> cases found <;> simp [eq_comm]

theorem DependencyFields.extends_nil_iff {fields found : DependencyFields} :
    fields.Extends found [] ↔ fields = found := by
  cases fields
  cases found
  simp [extends_iff, fieldTexts, fieldSigners, toList_eq_toList_iff]

/-- The first of the fields is added, and the others extend what that gives. -/
theorem DependencyFields.extends_cons_iff {fields found : DependencyFields} {fs : List Field} :
    fields.Extends found (field :: fs) ↔
      ∃ next, fields.add? field = some next ∧ next.Extends found fs := by
  cases field with
  | text field text =>
      cases field <;>
        simp [add?_eq_some_iff, extends_iff, fieldTexts, fieldSigners, has, set, Field.tag,
          TextField.tag, toList_eq_append_cons_iff] <;> tauto
  | signers signers =>
      simp [add?_eq_some_iff, extends_iff, fieldTexts, fieldSigners, has, set, Field.tag,
        toList_eq_append_cons_iff]
      tauto

theorem DependencyFields.foldlM_add?_eq_some_iff {fields found : DependencyFields}
    {fs : List Field} : fs.foldlM add? fields = some found ↔ fields.Extends found fs := by
  induction fs generalizing fields with
  | nil =>
      rw [extends_nil_iff]
      exact Option.some_inj
  | cons field fs ih => simp only [foldlM_cons_eq_some_iff, ih, extends_cons_iff]

/-- Fields are read one after the other. -/
theorem DependencyFields.read_eq_ok_iff {fields found : DependencyFields} {c : Content} :
    fields.read c = .ok found ↔
      EndsIn .close c ∧ ∃ fs, Spaced FieldElement c.events fs ∧ fields.Extends found fs := by
  simp only [accumulates_read.eq_ok_iff, foldlM_add?_eq_some_iff]

theorem areFieldsOf_iff {d : Dependency} {fs : List Field} :
    AreFieldsOf d fs ↔
      DependencyFields.Extends {} ⟨some d.name, some d.version, d.type, some d.signers⟩ fs ∧
        Text.allBlank d.name = false := by
  constructor
  · rintro ⟨hname, hversion, htype, hsigners, hvisible⟩
    exact ⟨⟨hname.symm, hversion.symm, htype.symm, hsigners.symm⟩, hvisible⟩
  · rintro ⟨⟨hname, hversion, htype, hsigners⟩, hvisible⟩
    exact ⟨hname.symm, hversion.symm, htype.symm, hsigners.symm, hvisible⟩

end Fields

section Document

theorem dependencyRecord_iff {es : List Event} {d : Dependency} :
    DependencyRecord es d ↔ ∃ fs, Spaced FieldElement es fs ∧ AreFieldsOf d fs := by
  constructor
  · rintro ⟨h, all⟩
    exact ⟨_, h, all⟩
  · rintro ⟨_, h, all⟩
    exact ⟨h, all⟩

theorem readDependency_eq_ok_iff {c : Content} {d : Dependency} :
    readDependency c = .ok d ↔ EndsIn .close c ∧ DependencyRecord c.events d := by
  simp only [readDependency, bind_eq_ok_iff, DependencyFields.complete_eq_ok_iff,
    DependencyFields.read_eq_ok_iff, dependencyRecord_iff, areFieldsOf_iff]
  constructor
  · rintro ⟨_, ⟨hend, fs, h, hextends⟩, rfl, hvisible⟩
    exact ⟨hend, fs, h, hextends, hvisible⟩
  · rintro ⟨hend, fs, h, hextends, hvisible⟩
    exact ⟨_, ⟨hend, fs, h, hextends⟩, rfl, hvisible⟩

/-- **The reader of dependencies accepts exactly its grammar**: the text must be cut into
pieces up to its end, and the events of its content, with comments, instructions and document
types dropped, must be a document of what is read. -/
theorem Dependencies.ofXml_eq_ok_iff {xml : String} {d : Dependencies} :
    Dependencies.ofXml xml = .ok d ↔
      ∃ events, Xml.IsReadAs xml.toList events ∧ IsDependencyDocument events d := by
  obtain ⟨records⟩ := d
  rw [Xml.exists_isReadAs_iff]
  simp only [ofXml, ofContent, Content.ofText, bind_eq_ok_iff, pure, Except.pure, Except.ok.injEq,
    Dependencies.mk.injEq, exists_eq_right]
  exact readRoot_ofReading_eq_ok_iff (fun _ _ => DependencyRecord.isBalanced)
    fun _ _ => readDependency_eq_ok_iff

end Document

end CpkProvenance.Document
