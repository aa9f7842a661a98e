import CpkProvenance.Proofs.Document.RoundTrip

/-!
# Written constraints are read back

A written document of constraints is read back exactly if each of its constraints
could be read at all: the name of the file must not be blank, and the hash must name
its algorithm. If a constraint is at fault, the reader says what is wrong with the first
such one. The two kinds of documents are never mistaken for each other.
-/

namespace CpkProvenance.Document

open Xml (Content Item Tag)
open Xml.Item (Nests layoutEvents lineBreak)
open Xml.Content (EndsIn)

/-- The constraints that a reader accepts. -/
structure Constraint.IsReadable (c : Constraint) : Prop where
  fileName : Text.allBlank c.fileName = false
  algorithm : c.hash.algorithm ≠ ""

instance (c : Constraint) : Decidable c.IsReadable :=
  decidable_of_iff (Text.allBlank c.fileName = false ∧ c.hash.algorithm ≠ "")
    ⟨fun h => ⟨h.1, h.2⟩, fun h => ⟨h.fileName, h.algorithm⟩⟩

/-- What a reader finds wrong with a constraint that it does not accept. The hash is looked
at first. -/
def Constraint.fault (c : Constraint) : Fault :=
  if c.hash.algorithm = "" then .missingField "hash" "algorithm"
  else .emptyField "dependencyConstraint" "fileName"

section Writing

/-- The tag of the hash of a file. -/
def hashTag (algorithm : String) : Tag := ⟨"hash", [⟨"algorithm", algorithm⟩]⟩

/-- The element of a hash at the end of a constraint. -/
def hashLast (h : HashValue) : Content :=
  .text (lineBreak 2) (.element (hashTag h.algorithm) (leafBody (Base64.encodeText h.value))
    (.text (lineBreak 1) .close))

/-- The content of a constraint. -/
def Constraint.body (c : Constraint) : Content :=
  fieldThen "fileName" c.fileName (hashLast c.hash)

theorem Constraint.nests (c : Constraint) (opened : List String) : Nests opened c.items opened := by
  have hhash : (hashTag c.hash.algorithm).IsWritable := isWritable_single (by decide) (by decide) _
  refine .openTag (isWritable_plainTag (by decide)) ?_
  refine (nests_field (by decide) c.fileName _).append ?_
  exact .leaf hhash (.closeTag (by decide) (.nil opened))

theorem layoutEvents_hashLast (h : HashValue) (rest : List Item) :
    layoutEvents 2 (h.item "hash" :: .closeTag "dependencyConstraint" :: rest) =
      (hashLast h).events ++ .closeTag :: layoutEvents 1 rest := by
  simp [layoutEvents, Item.depths, HashValue.item, Item.events, hashLast, hashTag, Content.events,
    events_leafBody]

/-- The lines of a constraint are an element with its content. -/
theorem Constraint.isElement :
    IsElement "dependencyConstraint" Constraint.items Constraint.body where
  nests := Constraint.nests
  events c rest := by
    have hbody := layoutEvents_field "fileName" c.fileName (layoutEvents_hashLast c.hash rest)
    rw [Constraint.items, List.cons_append, layoutEvents]
    exact congrArg
      (fun es => .text (lineBreak 1) :: .openTag (plainTag "dependencyConstraint") :: es) hbody
  closed c := ⟨endsIn_leafBody _, endsIn_leafBody _, rfl⟩

end Writing

section Reading

theorem ConstraintFields.read_fileName (text : String) (rest : Content) :
    ConstraintFields.read {} (fieldThen "fileName" text rest) =
      ConstraintFields.read ⟨some text, none⟩ rest := by
  have hlocal : (plainTag "fileName").localName = "fileName" := by decide
  rw [fieldThen, read, if_pos (allBlank_lineBreak 2), read, if_pos hlocal, leafText_leafBody]
  rfl

theorem ConstraintFields.read_hashLast (fileName : String) (h : HashValue) :
    ConstraintFields.read ⟨some fileName, none⟩ (hashLast h) =
      (hashValue (hashTag h.algorithm) (Base64.encodeText h.value)).map
        fun hash => ⟨some fileName, some hash⟩ := by
  have hlocal : (hashTag h.algorithm).localName = "hash" := by
    rw [hashTag, localName_mk]
    decide
  rw [hashLast, read, if_pos (allBlank_lineBreak 2), read, hlocal, if_neg (by decide), if_pos rfl,
    leafText_leafBody]
  simp only [Option.isSome_none, Bool.false_eq_true, if_false, ok_bind]
  cases hashValue (hashTag h.algorithm) (Base64.encodeText h.value) with
  | error fault => rfl
  | ok hash =>
      rw [ok_bind, read, if_pos (allBlank_lineBreak 1), read]
      rfl

theorem ConstraintFields.read_body (c : Constraint) :
    ConstraintFields.read {} c.body =
      (hashValue (hashTag c.hash.algorithm) (Base64.encodeText c.hash.value)).map
        fun hash => ⟨some c.fileName, some hash⟩ := by
  rw [Constraint.body, read_fileName, read_hashLast]

/-- The content of a constraint is read if the constraint is readable. -/
theorem readConstraint_body {c found : Constraint} :
    readConstraint c.body = .ok found ↔ found = c ∧ c.IsReadable := by
  rw [readConstraint, ConstraintFields.read_body, bind_eq_ok_iff]
  simp only [map_eq_ok_iff, hashTag, hashValue_item]
  constructor
  · rintro ⟨_, ⟨_, ⟨rfl, halgorithm⟩, rfl⟩, hcomplete⟩
    obtain ⟨hfields, hblank⟩ := ConstraintFields.complete_eq_ok_iff.mp hcomplete
    obtain ⟨fileName, hash⟩ := found
    cases hfields
    exact ⟨rfl, hblank, halgorithm⟩
  · rintro ⟨rfl, hblank, halgorithm⟩
    exact ⟨_, ⟨_, ⟨rfl, halgorithm⟩, rfl⟩, ConstraintFields.complete_eq_ok_iff.mpr ⟨rfl, hblank⟩⟩

/-- A hash without an algorithm is no hash, whatever its value is. -/
theorem hashValue_hashTag_empty (content : String) :
    hashValue (hashTag "") content = .error (.missingField "hash" "algorithm") := by
  have hlocal : (hashTag "").localName = "hash" := by decide
  have hfilter : ((hashTag "").attribute? "algorithm").filter (· != "") = none := by decide
  rw [hashValue, hfilter, hlocal]

theorem readConstraint_body_of_not_isReadable {c : Constraint} (h : ¬ c.IsReadable) :
    readConstraint c.body = .error c.fault := by
  rw [readConstraint, ConstraintFields.read_body, Constraint.fault]
  by_cases halgorithm : c.hash.algorithm = ""
  · rw [if_pos halgorithm, halgorithm, hashValue_hashTag_empty]
    rfl
  · have hblank : Text.allBlank c.fileName = true := by
      rw [← Bool.not_eq_false]
      exact fun hname => h ⟨hname, halgorithm⟩
    have hhash : hashValue (hashTag c.hash.algorithm) (Base64.encodeText c.hash.value) =
        .ok c.hash :=
      hashValue_item.mpr ⟨rfl, halgorithm⟩
    rw [if_neg halgorithm, hhash, ok_map, ok_bind]
    simp only [ConstraintFields.complete, hblank, if_true]

end Reading

section Document

variable {d found : Constraints}

/-- Reading a written document reads each of its constraints. -/
theorem Constraints.ofXml_toXml_eq_mapM (d : Constraints) :
    Constraints.ofXml d.toXml =
      (d.constraints.mapM fun c => readConstraint c.body).map Constraints.mk := by
  have hread : readRoot "dependencyConstraints" "dependencyConstraint" "fileName" readConstraint
      (Content.ofText d.toXml) = d.constraints.mapM fun c => readConstraint c.body :=
    Constraint.isElement.readRoot_rooted (by decide) (by decide) (by decide) _ _ _
  rw [Constraints.ofXml, Constraints.ofContent, hread]
  cases d.constraints.mapM fun c => readConstraint c.body <;> rfl

theorem Constraints.ofXml_toXml_eq_ok_iff :
    Constraints.ofXml d.toXml = .ok found ↔ found = d ∧ ∀ c ∈ d.constraints, c.IsReadable := by
  rw [Constraints.ofXml_toXml_eq_mapM, map_eq_ok_iff]
  simp only [mapM_eq_ok_iff_self fun c found => readConstraint_body]
  constructor
  · rintro ⟨constraints, ⟨rfl, hreadable⟩, rfl⟩
    exact ⟨rfl, hreadable⟩
  · rintro ⟨rfl, hreadable⟩
    exact ⟨found.constraints, ⟨rfl, hreadable⟩, rfl⟩

/-- The first constraint that cannot be read decides how reading fails. -/
theorem Constraints.ofXml_toXml_eq_error_iff {fault : Fault} :
    Constraints.ofXml d.toXml = .error fault ↔ ∃ front c back,
      d.constraints = front ++ c :: back ∧ (∀ b ∈ front, b.IsReadable) ∧ ¬ c.IsReadable ∧
        c.fault = fault := by
  rw [Constraints.ofXml_toXml_eq_mapM, map_eq_error_iff, mapM_eq_error_iff]
  constructor
  · rintro ⟨front, c, back, hd, hfront, hfault⟩
    have hc : ¬ c.IsReadable := by
      intro hreadable
      rw [readConstraint_body.mpr ⟨rfl, hreadable⟩] at hfault
      cases hfault
    refine ⟨front, c, back, hd, fun b hb => ?_, hc, ?_⟩
    · obtain ⟨found, hfound⟩ := hfront b hb
      exact (readConstraint_body.mp hfound).2
    · rw [readConstraint_body_of_not_isReadable hc] at hfault
      exact Except.error.inj hfault
  · rintro ⟨front, c, back, hd, hfront, hc, rfl⟩
    exact ⟨front, c, back, hd, fun b hb => ⟨b, readConstraint_body.mpr ⟨rfl, hfront b hb⟩⟩,
      readConstraint_body_of_not_isReadable hc⟩

/-- If all hashes are right, a blank name is all that can be wrong with a written document. -/
theorem Constraints.ofXml_toXml_of_blank (halgorithms : ∀ c ∈ d.constraints, c.hash.algorithm ≠ "")
    (hblank : ∃ c ∈ d.constraints, Text.allBlank c.fileName = true) :
    Constraints.ofXml d.toXml = .error (.emptyField "dependencyConstraint" "fileName") := by
  cases hread : Constraints.ofXml d.toXml with
  | ok found =>
      obtain ⟨c, hc, hname⟩ := hblank
      have hreadable := (Constraints.ofXml_toXml_eq_ok_iff.mp hread).2 c hc
      rw [hreadable.fileName] at hname
      cases hname
  | error fault =>
      obtain ⟨front, c, back, hd, _, _, rfl⟩ := Constraints.ofXml_toXml_eq_error_iff.mp hread
      have hc : c ∈ d.constraints := by simp [hd]
      rw [Constraint.fault, if_neg (halgorithms c hc)]

/-- A document of constraints is no document of dependencies. -/
theorem Dependencies.ofXml_toXml_constraints (d : Constraints) :
    Dependencies.ofXml d.toXml = .error (.unknownElement "dependencyConstraints") := by
  have hread : readRoot "cpkDependencies" "cpkDependency" "name" readDependency
      (Content.ofText d.toXml) = .error (.unknownElement "dependencyConstraints") :=
    Constraint.isElement.readRoot_rooted_of_ne (by decide) (by decide) (by decide) _ _ _ _
  rw [Dependencies.ofXml, Dependencies.ofContent, hread]
  rfl

/-- A document of dependencies is no document of constraints. -/
theorem Constraints.ofXml_toXml_dependencies (e : Dependencies) :
    Constraints.ofXml e.toXml = .error (.unknownElement "cpkDependencies") := by
  have hread : readRoot "dependencyConstraints" "dependencyConstraint" "fileName" readConstraint
      (Content.ofText e.toXml) = .error (.unknownElement "cpkDependencies") :=
    Dependency.isElement.readRoot_rooted_of_ne (by decide) (by decide) (by decide) _ _ _ _
  rw [Constraints.ofXml, Constraints.ofContent, hread]
  rfl

/-- **A written document of constraints is read back exactly if all its constraints are
readable.** Otherwise the reader reports the first that is not. Neither kind of document is
read as the other. -/
theorem Constraints.readBack_toXml (d : Constraints) (e : Dependencies) :
    (Constraints.ofXml d.toXml = .ok d ↔ ∀ c ∈ d.constraints, c.IsReadable) ∧
      ((¬ ∀ c ∈ d.constraints, c.IsReadable) → ∃ front c back,
        d.constraints = front ++ c :: back ∧ (∀ b ∈ front, b.IsReadable) ∧ ¬ c.IsReadable ∧
          Constraints.ofXml d.toXml = .error c.fault) ∧
      Dependencies.ofXml d.toXml = .error (.unknownElement "dependencyConstraints") ∧
      Constraints.ofXml e.toXml = .error (.unknownElement "cpkDependencies") := by
  refine ⟨?_, ?_, Dependencies.ofXml_toXml_constraints d, Constraints.ofXml_toXml_dependencies e⟩
  · rw [Constraints.ofXml_toXml_eq_ok_iff, and_iff_right rfl]
  · intro hunreadable
    cases hread : Constraints.ofXml d.toXml with
    | ok found => exact absurd (Constraints.ofXml_toXml_eq_ok_iff.mp hread).2 hunreadable
    | error fault =>
        obtain ⟨front, c, back, hd, hfront, hc, rfl⟩ :=
          Constraints.ofXml_toXml_eq_error_iff.mp hread
        exact ⟨front, c, back, hd, hfront, hc, rfl⟩

/-- An empty digest and markup in a name or in an algorithm do no harm, but an algorithm
without a name does, even behind a blank file name. -/
theorem Constraints.readBack_toXml_samples :
    Constraints.ofXml (Constraints.toXml ⟨[⟨"</fileName>&#10;", ⟨"<'\"", []⟩⟩,
        ⟨"\u200b", ⟨" ", [0, 255]⟩⟩]⟩) =
      .ok ⟨[⟨"</fileName>&#10;", ⟨"<'\"", []⟩⟩, ⟨"\u200b", ⟨" ", [0, 255]⟩⟩]⟩ ∧
    ∃ fault, Constraints.ofXml (Constraints.toXml
      ⟨[⟨"a.jar", ⟨"SHA-1", [1]⟩⟩, ⟨"\u3000", ⟨"", [1]⟩⟩]⟩) = .error fault := by
  obtain ⟨_, hfaulty, _⟩ := Constraints.readBack_toXml
    ⟨[⟨"a.jar", ⟨"SHA-1", [1]⟩⟩, ⟨"\u3000", ⟨"", [1]⟩⟩]⟩ ⟨[]⟩
  obtain ⟨_, c, _, _, _, _, hfault⟩ := hfaulty (by decide)
  exact ⟨(Constraints.readBack_toXml _ ⟨[]⟩).1.mpr (by decide), c.fault, hfault⟩

end Document

end CpkProvenance.Document
