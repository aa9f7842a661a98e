import CpkProvenance.Proofs.Document.ConstraintGrammar
import CpkProvenance.Proofs.Document.ConstraintRoundTrip

/-!
# The namespace of a root

A tag declares the namespace of its own name by an attribute: `xmlns` if the name is
plain, and `xmlns` with the qualifier of the name otherwise. The readers look at the
attribute `xmlns` only. So a plain root in a foreign namespace is refused, but the
namespace of a qualified root is never looked at, and a foreign one is accepted.
-/

namespace CpkProvenance

namespace Xml

/-- What stands before the first colon of a tag's name. -/
def Tag.qualifier? (t : Tag) : Option String :=
  if ':' ∈ t.name.toList then some (String.ofList (t.name.toList.takeWhile (· != ':'))) else none

/-- The namespace that a tag itself declares for its name. -/
def Tag.ownNamespace? (t : Tag) : Option String :=
  match t.qualifier? with
  | none => t.attribute? "xmlns"
  | some qualifier => t.attribute? ("xmlns:" ++ qualifier)

/-- The tag of the first element among events. -/
def firstTag? : List Event → Option Tag
  | [] => none
  | .openTag tag :: _ => some tag
  | .emptyTag tag :: _ => some tag
  | _ :: events => firstTag? events

theorem isName_append {a b : String} (ha : isName a = true) (hb : isName b = true) :
    isName (a ++ b) = true := by
  simp only [isName, String.toList_append, List.all_append, Bool.and_eq_true, bne_iff_ne] at ha hb ⊢
  exact ⟨List.append_ne_nil_of_left_ne_nil ha.1 _, ha.2, hb.2⟩

end Xml

namespace Document

open Xml (Content Event Tag isName firstTag?)

section Accepted

variable {α : Type} {root : String} {record : List Event → α → Prop} {es : List Event}

theorem Root.firstTag? {vs : List α} (h : Root root record es vs) (rest : List Event) :
    ∃ tag, firstTag? (es ++ rest) = some tag ∧ IsRootTag root tag := by
  cases h with
  | @empty tag h => exact ⟨tag, rfl, h⟩
  | @full tag _ _ h _ => exact ⟨tag, rfl, h⟩

/-- The first element of a document is its root. -/
theorem Spaced.firstTag? {vs : List (List α)} (h : Spaced (Root root record) es vs)
    (hne : vs ≠ []) : ∃ tag, firstTag? es = some tag ∧ IsRootTag root tag := by
  induction h with
  | nil => exact absurd rfl hne
  | blank _ _ ih => exact ih hne
  | cons first _ _ => exact first.firstTag? _

/-- The namespace of a plain root is the one that the readers look at. -/
theorem IsRootTag.ownNamespace? {tag : Tag} (h : IsRootTag root tag)
    (hplain : tag.qualifier? = none) :
    tag.ownNamespace? = none ∨ tag.ownNamespace? = some xmlNamespace := by
  have hown : tag.ownNamespace? = tag.attribute? "xmlns" := by
    rw [Tag.ownNamespace?, hplain]
  rw [hown]
  cases hxmlns : tag.attribute? "xmlns" with
  | none => exact .inl rfl
  | some found => exact .inr (congrArg some (h.xmlns found hxmlns))

/-- What the readers make sure of: the tag of the root has the right name, and declares
no foreign namespace if it is plain. -/
def HasRoot (root : String) (es : List Event) : Prop :=
  ∃ tag, firstTag? es = some tag ∧ tag.localName = root ∧
    (tag.qualifier? = none →
      tag.ownNamespace? = none ∨ tag.ownNamespace? = some xmlNamespace)

theorem Spaced.hasRoot {vs : List α} (h : Spaced (Root root record) es [vs]) :
    HasRoot root es := by
  obtain ⟨tag, htag, hroot⟩ := h.firstTag? (List.cons_ne_nil vs [])
  exact ⟨tag, htag, hroot.named, hroot.ownNamespace?⟩

end Accepted

section Qualified

/-- The tag of a root with a qualified name, in the given namespace. -/
def qualifiedRoot (qualifier root found : String) : Tag :=
  ⟨qualifier ++ ":" ++ root, [⟨"xmlns:" ++ qualifier, found⟩]⟩

variable {qualifier root : String} (found : String)

theorem isWritable_qualifiedRoot (hqualifier : isName qualifier = true)
    (hroot : isName root = true) : (qualifiedRoot qualifier root found).IsWritable := by
  have hcolon : isName ":" = true := by decide
  have hxmlns : isName "xmlns:" = true := by decide
  exact isWritable_single (Xml.isName_append (Xml.isName_append hqualifier hcolon) hroot)
    (Xml.isName_append hxmlns hqualifier) found

variable (hcolon : ':' ∉ qualifier.toList)

include hcolon

theorem span_qualifiedRoot :
    (qualifiedRoot qualifier root found).name.toList.takeWhile (· != ':') = qualifier.toList ∧
      (qualifiedRoot qualifier root found).name.toList.dropWhile (· != ':') =
        ':' :: root.toList := by
  have hname : (qualifiedRoot qualifier root found).name.toList =
      qualifier.toList ++ ':' :: root.toList := by
    simp [qualifiedRoot]
  have hrun : ∀ c ∈ qualifier.toList, (c != ':') = true := by
    intro c hc
    exact bne_iff_ne.mpr fun h => hcolon (h ▸ hc)
  rw [hname]
  exact ⟨Xml.takeWhile_run hrun (by simp), Xml.dropWhile_run hrun (by simp)⟩

theorem localName_qualifiedRoot : (qualifiedRoot qualifier root found).localName = root := by
  rw [Tag.localName, (span_qualifiedRoot found hcolon).2]
  exact String.ofList_toList

theorem qualifier?_qualifiedRoot :
    (qualifiedRoot qualifier root found).qualifier? = some qualifier := by
  have hmem : ':' ∈ (qualifiedRoot qualifier root found).name.toList := by
    simp [qualifiedRoot]
  rw [Tag.qualifier?, if_pos hmem, (span_qualifiedRoot found hcolon).1, String.ofList_toList]

theorem ownNamespace?_qualifiedRoot :
    (qualifiedRoot qualifier root found).ownNamespace? = some found := by
  rw [Tag.ownNamespace?, qualifier?_qualifiedRoot found hcolon]
  simp [qualifiedRoot, Tag.attribute?]

/-- A qualified root has no attribute that the readers look at. -/
theorem checkRoot_qualifiedRoot : checkRoot root (qualifiedRoot qualifier root found) = .ok () := by
  have hkey : ("xmlns:" ++ qualifier == "xmlns") = false := by
    apply beq_eq_false_iff_ne.mpr
    intro h
    have hlength := congrArg (fun s => s.toList.length) h
    simp at hlength
  have hxmlns : (qualifiedRoot qualifier root found).attribute? "xmlns" = none := by
    simp [qualifiedRoot, Tag.attribute?, hkey]
  rw [checkRoot, localName_qualifiedRoot found hcolon, hxmlns]
  exact if_neg (not_not_intro rfl)

end Qualified

section Readers

/-- A text is read like another one, although its root has the given namespace. -/
structure IsReadInNamespace {α : Type} (read : String → Except Fault α)
    (text other found : String) : Prop where
  same : read text = read other
  declared : ∃ tag, firstTag? (Xml.Reading.ofText text.toList).events = some tag ∧
    tag.ownNamespace? = some found

/-- The text of dependencies under a qualified root. -/
def Dependencies.toQualifiedXml (qualifier found : String) (d : Dependencies) : String :=
  Xml.document (rootedIn (qualifiedRoot qualifier "cpkDependencies" found)
    (d.dependencies.flatMap Dependency.items))

/-- The text of constraints under a qualified root. -/
def Constraints.toQualifiedXml (qualifier found : String) (d : Constraints) : String :=
  Xml.document (rootedIn (qualifiedRoot qualifier "dependencyConstraints" found)
    (d.constraints.flatMap Constraint.items))

variable {qualifier : String} (hqualifier : isName qualifier = true)
  (hcolon : ':' ∉ qualifier.toList) (found : String)

include hqualifier hcolon

/-- The records under a qualified root are read like those under a plain one. -/
theorem IsElement.isReadInNamespace {α : Type} {root name : String} {items : α → List Xml.Item}
    {body : α → Content} (h : IsElement name items body) (hroot : isName root = true)
    (hlocalRoot : (plainTag root).localName = root) (hlocal : (plainTag name).localName = name)
    (missing : String) (item : Content → Except Fault α) (xs : List α) :
    IsReadInNamespace (fun text => readRoot root name missing item (Content.ofText text))
      (Xml.document (rootedIn (qualifiedRoot qualifier root found) (xs.flatMap items)))
      (Xml.document (rooted root (xs.flatMap items))) found := by
  have htag := isWritable_qualifiedRoot found hqualifier hroot
  have hcheck : checkRoot root (qualifiedRoot qualifier root found) = .ok () :=
    checkRoot_qualifiedRoot found hcolon
  refine ⟨?_, qualifiedRoot qualifier root found, ?_, ownNamespace?_qualifiedRoot found hcolon⟩
  · rw [h.readRoot_rootedIn htag hcheck hlocal, h.readRoot_rooted hroot hlocalRoot hlocal]
  · rw [Xml.ofText_document (h.nests_rootedIn htag xs)]
    rfl

theorem Dependencies.isReadInNamespace (d : Dependencies) :
    IsReadInNamespace Dependencies.ofXml (d.toQualifiedXml qualifier found) d.toXml found := by
  have hread := Dependency.isElement.isReadInNamespace hqualifier hcolon found
    (show isName "cpkDependencies" = true by decide) (by decide) (by decide) "name" readDependency
    d.dependencies
  refine ⟨?_, hread.declared⟩
  rw [Dependencies.ofXml, Dependencies.ofXml, Dependencies.ofContent, Dependencies.ofContent]
  exact congrArg (· >>= _) hread.same

theorem Constraints.isReadInNamespace (d : Constraints) :
    IsReadInNamespace Constraints.ofXml (d.toQualifiedXml qualifier found) d.toXml found := by
  have hread := Constraint.isElement.isReadInNamespace hqualifier hcolon found
    (show isName "dependencyConstraints" = true by decide) (by decide) (by decide) "fileName"
    readConstraint d.constraints
  refine ⟨?_, hread.declared⟩
  rw [Constraints.ofXml, Constraints.ofXml, Constraints.ofContent, Constraints.ofContent]
  exact congrArg (· >>= _) hread.same

end Readers

section Documents

variable {xml : String}

theorem Dependencies.hasRoot_of_ofXml {d : Dependencies} (h : Dependencies.ofXml xml = .ok d) :
    HasRoot "cpkDependencies" (Xml.Reading.ofText xml.toList).events := by
  obtain ⟨records, hrecords, _⟩ := bind_eq_ok_iff.mp h
  have hread := (readRoot_ofReading_eq_ok_iff
    (fun es r (hr : DependencyRecord es r) => hr.isBalanced)
    (fun _ _ => readDependency_eq_ok_iff)).mp hrecords
  exact hread.2.hasRoot

theorem Constraints.hasRoot_of_ofXml {d : Constraints} (h : Constraints.ofXml xml = .ok d) :
    HasRoot "dependencyConstraints" (Xml.Reading.ofText xml.toList).events := by
  obtain ⟨records, hrecords, _⟩ := bind_eq_ok_iff.mp h
  have hread := (readRoot_ofReading_eq_ok_iff
    (fun es c (hc : ConstraintRecord es c) => hc.isBalanced)
    (fun _ _ => readConstraint_eq_ok_iff)).mp hrecords
  exact hread.2.hasRoot

/-- **A plain root in a foreign namespace is never accepted, but a qualified one is.** Both
documents can be put in any namespace by a qualifier, and are read as if they had not been. -/
theorem root_of_ofXml (xml qualifier found : String) :
    (∀ d, Dependencies.ofXml xml = .ok d →
      HasRoot "cpkDependencies" (Xml.Reading.ofText xml.toList).events) ∧
    (∀ d, Constraints.ofXml xml = .ok d →
      HasRoot "dependencyConstraints" (Xml.Reading.ofText xml.toList).events) ∧
    (isName qualifier = true → ':' ∉ qualifier.toList →
      (∀ d : Dependencies, IsReadInNamespace Dependencies.ofXml
        (d.toQualifiedXml qualifier found) d.toXml found) ∧
      ∀ d : Constraints, IsReadInNamespace Constraints.ofXml
        (d.toQualifiedXml qualifier found) d.toXml found) := by
  refine ⟨fun _ => Dependencies.hasRoot_of_ofXml, fun _ => Constraints.hasRoot_of_ofXml, ?_⟩
  intro hqualifier hcolon
  exact ⟨Dependencies.isReadInNamespace hqualifier hcolon found,
    Constraints.isReadInNamespace hqualifier hcolon found⟩

/-- A plain root whose namespace is written with a reference, and two documents that a
qualifier puts in a foreign namespace. -/
theorem root_of_ofXml_samples :
    (Dependencies.ofXml "<cpkDependencies xmlns='urn:corda&#45;cpk'/>" = .ok ⟨[]⟩ ∧
      HasRoot "cpkDependencies" (Xml.Reading.ofText
        "<cpkDependencies xmlns='urn:corda&#45;cpk'/>".toList).events) ∧
    (Constraints.ofXml "<dependencyConstraints> </dependencyConstraints>" = .ok ⟨[]⟩ ∧
      HasRoot "dependencyConstraints" (Xml.Reading.ofText
        "<dependencyConstraints> </dependencyConstraints>".toList).events) ∧
    IsReadInNamespace Dependencies.ofXml
      (Dependencies.toQualifiedXml "p" "urn:other" ⟨[⟨"n", "1", none, .sameAsMe⟩]⟩)
      (Dependencies.toXml ⟨[⟨"n", "1", none, .sameAsMe⟩]⟩) "urn:other" ∧
    IsReadInNamespace Constraints.ofXml
      (Constraints.toQualifiedXml "p" "urn:other" ⟨[⟨"a", ⟨"SHA-256", [0]⟩⟩]⟩)
      (Constraints.toXml ⟨[⟨"a", ⟨"SHA-256", [0]⟩⟩]⟩) "urn:other" := by
  have hdependencies : Dependencies.ofXml "<cpkDependencies xmlns='urn:corda&#45;cpk'/>" =
      .ok ⟨[]⟩ :=
    toOption_eq_some_iff.mp (by decide +kernel)
  have hconstraints : Constraints.ofXml "<dependencyConstraints> </dependencyConstraints>" =
      .ok ⟨[]⟩ :=
    toOption_eq_some_iff.mp (by decide +kernel)
  obtain ⟨hroot, _, hforeign⟩ :=
    root_of_ofXml "<cpkDependencies xmlns='urn:corda&#45;cpk'/>" "p" "urn:other"
  obtain ⟨_, hroot', _⟩ :=
    root_of_ofXml "<dependencyConstraints> </dependencyConstraints>" "p" "urn:other"
  obtain ⟨hread, hread'⟩ := hforeign (by decide) (by decide)
  exact ⟨⟨hdependencies, hroot _ hdependencies⟩, ⟨hconstraints, hroot' _ hconstraints⟩,
    hread _, hread' _⟩

/-- A text is accepted although its root declares a foreign namespace for itself. -/
theorem exists_accepted_foreignNamespace :
    ∃ xml d tag, Dependencies.ofXml xml = .ok d ∧
      firstTag? (Xml.Reading.ofText xml.toList).events = some tag ∧
      tag.ownNamespace? = some "urn:other" ∧ "urn:other" ≠ xmlNamespace :=
  ⟨"<p:cpkDependencies xmlns:p=\"urn:other\"/>", ⟨[]⟩,
    ⟨"p:cpkDependencies", [⟨"xmlns:p", "urn:other"⟩]⟩, toOption_eq_some_iff.mp (by decide +kernel),
    by decide +kernel, by decide +kernel, by decide⟩

end Documents

end Document

end CpkProvenance
