import CpkProvenance.Proofs.Document.Reader
import CpkProvenance.Proofs.Document.Written

/-!
# Written documents are read back

A written document of dependencies is read back exactly if each of its records
could be read at all: the name must not be blank, and every hash must name its
algorithm. The writer checks neither.
-/

namespace CpkProvenance.Document

open Xml (Content Item Tag)
open Xml.Item (Nests layoutEvents lineBreak)
open Xml.Content (EndsIn)

/-- The hashes that a list of signers holds. -/
def Signers.hashes : Signers → List HashValue
  | .sameAsMe => []
  | .publicKeyHashes hashes => hashes

/-- The records that a reader accepts. -/
structure Dependency.IsReadable (d : Dependency) : Prop where
  name : Text.allBlank d.name = false
  algorithms : ∀ h ∈ d.signers.hashes, h.algorithm ≠ ""

instance (d : Dependency) : Decidable d.IsReadable :=
  decidable_of_iff (Text.allBlank d.name = false ∧ ∀ h ∈ d.signers.hashes, h.algorithm ≠ "")
    ⟨fun h => ⟨h.1, h.2⟩, fun h => ⟨h.name, h.algorithms⟩⟩

section Content

/-- The element of a text field, and what follows it. -/
def fieldThen (name text : String) (rest : Content) : Content :=
  .text (lineBreak 2) (.element (plainTag name) (leafBody text) rest)

/-- The elements of hashes inside the list of signers. -/
def hashesBody : List HashValue → Content
  | [] => .text (lineBreak 2) .close
  | h :: hashes =>
      .text (lineBreak 3) (.element ⟨"signer", [⟨"algorithm", h.algorithm⟩]⟩
        (leafBody (Base64.encodeText h.value)) (hashesBody hashes))

/-- The list of signers, and what follows it. -/
def signersThen (signers : Signers) (rest : Content) : Content :=
  .text (lineBreak 2) <|
    match signers with
    | .sameAsMe =>
        .element (plainTag "signers")
          (.text (lineBreak 3) (.empty (plainTag "sameAsMe") (.text (lineBreak 2) .close))) rest
    | .publicKeyHashes [] => .empty (plainTag "signers") rest
    | .publicKeyHashes (h :: hashes) => .element (plainTag "signers") (hashesBody (h :: hashes)) rest

def typeThen (type : Option String) (rest : Content) : Content :=
  (type.map fun text => fieldThen "type" text rest).getD rest

/-- The content of a dependency. -/
def Dependency.body (d : Dependency) : Content :=
  fieldThen "name" d.name (fieldThen "version" d.version
    (typeThen d.type (signersThen d.signers (.text (lineBreak 1) .close))))

end Content

section Writing

theorem layoutEvents_hashes (hashes : List HashValue) (items : List Item) :
    layoutEvents 3 (hashes.map (HashValue.item "signer") ++ .closeTag "signers" :: items) =
      (hashesBody hashes).events ++ .closeTag :: layoutEvents 2 items := by
  induction hashes with
  | nil => rfl
  | cons h hashes ih =>
      rw [List.map_cons, List.cons_append, layoutEvents, hashesBody]
      simp [Item.depths, HashValue.item, Item.events, Content.events, events_leafBody, ih]

variable {items : List Item} {rest : Content} {after : List Xml.Event}

theorem layoutEvents_field (name text : String) (h : layoutEvents 2 items = rest.events ++ after) :
    layoutEvents 2 (field name text :: items) = (fieldThen name text rest).events ++ after := by
  rw [layoutEvents]
  simp [field, Item.depths, Item.events, fieldThen, Content.events, events_leafBody, h]

theorem layoutEvents_type (type : Option String)
    (h : layoutEvents 2 items = rest.events ++ after) :
    layoutEvents 2 ((type.map (field "type")).toList ++ items) =
      (typeThen type rest).events ++ after := by
  cases type with
  | none => exact h
  | some text => exact layoutEvents_field "type" text h

theorem layoutEvents_signers (signers : Signers) (h : layoutEvents 2 items = rest.events ++ after) :
    layoutEvents 2 (signers.items ++ items) = (signersThen signers rest).events ++ after := by
  match signers with
  | .sameAsMe =>
      simp [Signers.items, signersThen, layoutEvents, Item.depths, Item.events, Content.events, h]
  | .publicKeyHashes [] =>
      simp [Signers.items, signersThen, layoutEvents, Item.depths, Item.events, Content.events, h]
  | .publicKeyHashes (first :: hashes) =>
      have hhashes := layoutEvents_hashes (first :: hashes) items
      rw [h] at hhashes
      rw [Signers.items, List.cons_append, List.append_assoc, List.singleton_append, layoutEvents]
      change .text (lineBreak 2) :: .openTag (plainTag "signers") :: layoutEvents 3 _ = _
      rw [hhashes]
      simp [signersThen, Content.events]

theorem Signers.nests (signers : Signers) (opened : List String) :
    Nests opened signers.items opened := by
  have hsigners : (plainTag "signers").IsWritable := isWritable_plainTag (by decide)
  match signers with
  | .sameAsMe =>
      exact .openTag hsigners (.emptyTag (isWritable_plainTag (by decide))
        (.closeTag (by decide) (.nil _)))
  | .publicKeyHashes [] => exact .emptyTag hsigners (.nil _)
  | .publicKeyHashes (first :: hashes) =>
      refine .openTag hsigners (Nests.append ?_ (.closeTag (by decide) (.nil _)))
      induction first :: hashes with
      | nil => exact .nil _
      | cons h hashes ih =>
          exact .leaf (isWritable_single (by decide) (by decide) _) ih

theorem nests_field {name : String} (h : Xml.isName name = true) (text : String)
    (opened : List String) : Nests opened [field name text] opened :=
  .leaf (isWritable_plainTag h) (.nil opened)

theorem Dependency.nests (d : Dependency) (opened : List String) : Nests opened d.items opened := by
  have htype (opened : List String) : Nests opened (d.type.map (field "type")).toList opened := by
    cases d.type with
    | none => exact .nil _
    | some text => exact nests_field (by decide) text opened
  refine .openTag (isWritable_plainTag (by decide)) ?_
  refine Nests.append (Nests.append (Nests.append ?_ (htype _)) (d.signers.nests _))
    (.closeTag (by decide) (.nil opened))
  have hname : Xml.isName "name" = true := by decide
  exact (nests_field hname d.name _).append (nests_field (by decide) d.version _)

theorem endsIn_hashesBody (hashes : List HashValue) : EndsIn .close (hashesBody hashes) := by
  induction hashes with
  | nil => rfl
  | cons h hashes ih => exact ⟨endsIn_leafBody _, ih⟩

theorem endsIn_signersThen (signers : Signers) {last : Content} (h : EndsIn last rest) :
    EndsIn last (signersThen signers rest) := by
  match signers with
  | .sameAsMe => exact ⟨rfl, h⟩
  | .publicKeyHashes [] => exact h
  | .publicKeyHashes (first :: hashes) => exact ⟨endsIn_hashesBody (first :: hashes), h⟩

/-- The lines of a dependency are an element with its content. -/
theorem Dependency.isElement : IsElement "cpkDependency" Dependency.items Dependency.body where
  nests := Dependency.nests
  events d rest := by
    have hend : layoutEvents 2 (.closeTag "cpkDependency" :: rest) =
        Content.events (.text (lineBreak 1) .close) ++ .closeTag :: layoutEvents 1 rest :=
      rfl
    have hbody := layoutEvents_field "name" d.name (layoutEvents_field "version" d.version
      (layoutEvents_type d.type (layoutEvents_signers d.signers hend)))
    simp only [Dependency.items, List.cons_append, List.append_assoc, List.nil_append]
    rw [layoutEvents]
    exact congrArg (fun es => .text (lineBreak 1) :: .openTag (plainTag "cpkDependency") :: es) hbody
  closed d := by
    refine ⟨endsIn_leafBody _, endsIn_leafBody _, ?_⟩
    have hsigners : EndsIn .close (signersThen d.signers (.text (lineBreak 1) .close)) :=
      endsIn_signersThen d.signers rfl
    cases d.type with
    | none => exact hsigners
    | some text => exact ⟨endsIn_leafBody _, hsigners⟩

end Writing

section Reading

theorem DependencyFields.read_fieldThen {fields : DependencyFields} {name : String}
    (hlocal : (plainTag name).localName = name) (hfree : fields.has name = some false)
    (hne : name ≠ "signers") (text : String) (rest : Content) :
    fields.read (fieldThen name text rest) = (fields.setText name text).read rest := by
  rw [fieldThen, read, if_pos (allBlank_lineBreak 2), read, hlocal, hfree]
  simp only [if_neg hne, leafText_leafBody]
  rfl

/-- A written hash is read back if its algorithm is named. -/
theorem hashValue_item {name : String} {h found : HashValue} :
    hashValue ⟨name, [⟨"algorithm", h.algorithm⟩]⟩ (Base64.encodeText h.value) = .ok found ↔
      found = h ∧ h.algorithm ≠ "" := by
  have hattribute : (⟨name, [⟨"algorithm", h.algorithm⟩]⟩ : Tag).attribute? "algorithm" =
      some h.algorithm :=
    rfl
  rw [hashValue_eq_ok_iff, Base64.trim_encodeText, Base64.encodeText_inj, hattribute,
    Option.some.injEq]
  constructor
  · rintro ⟨halgorithm, hne, hvalue⟩
    obtain ⟨algorithm, value⟩ := found
    cases halgorithm
    cases hvalue
    exact ⟨rfl, hne⟩
  · rintro ⟨rfl, hne⟩
    exact ⟨rfl, hne, rfl⟩

theorem readSigners_hashesBody {sofar hashes : List HashValue} {signers : Signers} :
    readSigners (.publicKeyHashes sofar) (hashesBody hashes) = .ok signers ↔
      signers = .publicKeyHashes (sofar ++ hashes) ∧ ∀ h ∈ hashes, h.algorithm ≠ "" := by
  induction hashes generalizing sofar with
  | nil =>
      rw [hashesBody, readSigners, if_pos (allBlank_lineBreak 2), readSigners, Except.ok.injEq,
        List.append_nil, eq_comm]
      simp
  | cons h hashes ih =>
      have hlocal := localName_mk "signer" [⟨"algorithm", h.algorithm⟩]
      rw [show (plainTag "signer").localName = "signer" by decide] at hlocal
      rw [hashesBody, readSigners, if_pos (allBlank_lineBreak 3), readSigners, hlocal,
        if_neg (by decide), if_pos rfl]
      simp only [leafText_leafBody, bind_eq_ok_iff, Except.ok.injEq, exists_eq_left',
        hashValue_item, ih]
      constructor
      · rintro ⟨_, ⟨rfl, hne⟩, hsigners, hrest⟩
        rw [List.append_assoc] at hsigners
        exact ⟨hsigners, List.forall_mem_cons.mpr ⟨hne, hrest⟩⟩
      · rintro ⟨hsigners, hall⟩
        obtain ⟨hne, hrest⟩ := List.forall_mem_cons.mp hall
        refine ⟨h, ⟨rfl, hne⟩, ?_, hrest⟩
        rw [List.append_assoc]
        exact hsigners

theorem DependencyFields.read_signersThen {fields found : DependencyFields} {signers : Signers}
    {rest : Content} (hfree : fields.has "signers" = some false) :
    fields.read (signersThen signers rest) = .ok found ↔
      (∀ h ∈ signers.hashes, h.algorithm ≠ "") ∧
        { fields with signers := some signers }.read rest = .ok found := by
  have hlocal : (plainTag "signers").localName = "signers" := by decide
  have hsame : (plainTag "sameAsMe").localName = "sameAsMe" := by decide
  unfold signersThen
  rw [read, if_pos (allBlank_lineBreak 2)]
  match signers with
  | .sameAsMe =>
      have hread : readSigners (.publicKeyHashes [])
          (.text (lineBreak 3) (.empty (plainTag "sameAsMe") (.text (lineBreak 2) .close))) =
            .ok .sameAsMe := by
        rw [readSigners, if_pos (allBlank_lineBreak 3), readSigners, if_pos hsame, if_pos rfl,
          readSigners, if_pos (allBlank_lineBreak 2), readSigners]
      simp only [read, hlocal, hfree, if_true, hread, Signers.hashes, List.not_mem_nil,
        false_imp_iff, implies_true, true_and]
      exact Iff.rfl
  | .publicKeyHashes [] =>
      simp only [read, hlocal, hfree, if_true, Signers.hashes, List.not_mem_nil, false_imp_iff,
        implies_true, true_and]
  | .publicKeyHashes (first :: hashes) =>
      simp only [read, hlocal, hfree, if_true, bind_eq_ok_iff, readSigners_hashesBody,
        List.nil_append, and_assoc, exists_eq_left, Signers.hashes]

/-- The text fields of a dependency are read in the order in which they are
written. -/
theorem DependencyFields.read_body (d : Dependency) :
    DependencyFields.read {} d.body =
      DependencyFields.read ⟨some d.name, some d.version, d.type, none⟩
        (signersThen d.signers (.text (lineBreak 1) .close)) := by
  rw [Dependency.body, read_fieldThen (by decide) rfl (by decide),
    read_fieldThen (by decide) rfl (by decide)]
  cases d.type with
  | none => rfl
  | some text => exact read_fieldThen (by decide) rfl (by decide) text _

/-- The content of a dependency is read if the record is readable. -/
theorem readDependency_body {d found : Dependency} :
    readDependency d.body = .ok found ↔ found = d ∧ d.IsReadable := by
  rw [readDependency, DependencyFields.read_body, bind_eq_ok_iff]
  have hend (fields : DependencyFields) :
      fields.read (.text (lineBreak 1) .close) = .ok fields := by
    rw [DependencyFields.read, if_pos (allBlank_lineBreak 1), DependencyFields.read]
  constructor
  · rintro ⟨fields, hread, hcomplete⟩
    obtain ⟨halgorithms, hfields⟩ := (DependencyFields.read_signersThen rfl).mp hread
    rw [hend] at hfields
    obtain rfl := Except.ok.inj hfields
    obtain ⟨heq, hblank⟩ := DependencyFields.complete_eq_ok_iff.mp hcomplete
    obtain ⟨name, version, type, signers⟩ := found
    cases heq
    exact ⟨rfl, hblank, halgorithms⟩
  · rintro ⟨rfl, hblank, halgorithms⟩
    exact ⟨_, (DependencyFields.read_signersThen rfl).mpr ⟨halgorithms, hend _⟩,
      DependencyFields.complete_eq_ok_iff.mpr ⟨rfl, hblank⟩⟩

end Reading

theorem Dependencies.ofXml_toXml_eq_ok_iff {d found : Dependencies} :
    Dependencies.ofXml d.toXml = .ok found ↔
      found = d ∧ ∀ r ∈ d.dependencies, r.IsReadable := by
  have hread : readRoot "cpkDependencies" "cpkDependency" "name" readDependency
      (Content.ofText d.toXml) = d.dependencies.mapM fun r => readDependency r.body :=
    Dependency.isElement.readRoot_rooted (by decide) (by decide) (by decide) _ _ _
  rw [Dependencies.ofXml, Dependencies.ofContent, hread, bind_eq_ok_iff]
  simp only [mapM_eq_ok_iff_self fun r s => readDependency_body]
  constructor
  · rintro ⟨records, ⟨rfl, hreadable⟩, hfound⟩
    exact ⟨(Except.ok.inj hfound).symm, hreadable⟩
  · rintro ⟨rfl, hreadable⟩
    exact ⟨found.dependencies, ⟨rfl, hreadable⟩, rfl⟩

/-- A written document is read back if all its records are readable, and is no
document otherwise. -/
theorem Dependencies.ofXml_toXml (d : Dependencies) :
    (Dependencies.ofXml d.toXml = .ok d ↔ ∀ r ∈ d.dependencies, r.IsReadable) ∧
      ((¬ ∀ r ∈ d.dependencies, r.IsReadable) →
        ∃ fault, Dependencies.ofXml d.toXml = .error fault) := by
  constructor
  · rw [Dependencies.ofXml_toXml_eq_ok_iff, and_iff_right rfl]
  · intro hunreadable
    cases hread : Dependencies.ofXml d.toXml with
    | error fault => exact ⟨fault, rfl⟩
    | ok found => exact absurd (Dependencies.ofXml_toXml_eq_ok_iff.mp hread).2 hunreadable

/-- Markup, blanks and empty texts in the fields of a record do no harm, but a blank
name does. -/
theorem Dependencies.ofXml_toXml_samples :
    Dependencies.ofXml (Dependencies.toXml
        ⟨[⟨" </name>&lt;'\"", "", some "\n", .publicKeyHashes [⟨" ", [0, 255]⟩, ⟨"<", []⟩]⟩,
          ⟨"n", "1", none, .sameAsMe⟩]⟩) =
      .ok ⟨[⟨" </name>&lt;'\"", "", some "\n", .publicKeyHashes [⟨" ", [0, 255]⟩, ⟨"<", []⟩]⟩,
        ⟨"n", "1", none, .sameAsMe⟩]⟩ ∧
    ∃ fault, Dependencies.ofXml (Dependencies.toXml
      ⟨[⟨"n", "1", none, .sameAsMe⟩, ⟨" ", "1", none, .publicKeyHashes []⟩]⟩) = .error fault :=
  ⟨(Dependencies.ofXml_toXml _).1.mpr (by decide), (Dependencies.ofXml_toXml _).2 (by decide)⟩

end CpkProvenance.Document
