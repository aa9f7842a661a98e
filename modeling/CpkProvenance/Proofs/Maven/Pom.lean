import CpkProvenance.Maven.Pom
import CpkProvenance.Proofs.Document.WrittenElements

/-!
# Companion POMs are read back

A companion POM says what it was made from: its artifact, and the coordinates it depends
on, those of CPKs under the names of their companions. No text of a field can open or
close an element, so the written POM is read as this and as nothing else, whatever the
fields hold.
-/

namespace CpkProvenance.Maven

open Document (Element IsLaidOutAs Leaf Spaced UnambiguousContent UnambiguousElement
  isWritable_plainTag leaf_enclosed_iff plainTag texts_ofWritten)
open Xml (Event Reading Tag isName)

/-- The companion of an artifact. -/
def Coordinate.companion (c : Coordinate) : Coordinate :=
  { c with artifactId := companionId c.groupId c.artifactId }

/-- What a POM says: the coordinate of its artifact, and those of its dependencies. -/
structure Project where
  groupId : String
  artifactId : String
  version : String
  dependencies : List Coordinate

/-- What a companion POM says. -/
def CompanionPom.project (pom : CompanionPom) : Project :=
  ⟨pom.groupId, pom.artifactId, pom.version,
    pom.cordapps.map Coordinate.companion ++ pom.provided⟩

section Grammar

/-- The elements of a dependency, each with its text. The type is left out if it is the
usual one. -/
def Coordinate.fields (c : Coordinate) : List (String × String) :=
  [("groupId", c.groupId), ("artifactId", c.artifactId), ("version", c.version)] ++
    (c.classifier.map ("classifier", ·)).toList ++
    (if c.type = defaultType then [] else [("type", c.type)]) ++ [("scope", "compile")]

/-- An element that holds a text and nothing else. -/
def TextElement (es : List Event) (field : String × String) : Prop :=
  Leaf field.1 es field.2

/-- What the element of a dependency holds. -/
def IsDependency (es : List Event) (c : Coordinate) : Prop :=
  Spaced TextElement es c.fields

/-- What an element inside the project stands for. -/
inductive Child
  | text (name text : String)
  | dependencies (coordinates : List Coordinate)

/-- An element inside the project: a text, or the list of dependencies. -/
inductive ChildElement : List Event → Child → Prop
  | text {es : List Event} {name text : String} (other : name ≠ "dependencies")
      (h : Leaf name es text) : ChildElement es (.text name text)
  | dependencies {es : List Event} {coordinates : List Coordinate}
      (h : Element "dependencies" (Spaced (Element "dependency" IsDependency)) es coordinates) :
      ChildElement es (.dependencies coordinates)

/-- The elements inside the project, in their order. -/
def Project.children (p : Project) : List Child :=
  [.text "modelVersion" "4.0.0", .text "groupId" p.groupId, .text "artifactId" p.artifactId,
    .text "version" p.version, .text "packaging" "pom", .dependencies p.dependencies]

/-- What the element of a project holds. -/
def IsProject (es : List Event) (p : Project) : Prop :=
  Spaced ChildElement es p.children

/-- The events of a POM: one project, with blank text around it. -/
def IsPom (es : List Event) (p : Project) : Prop :=
  Spaced (Element "project" IsProject) es [p]

end Grammar

section Unambiguity

theorem Coordinate.fields_inj {a b : Coordinate} (h : a.fields = b.fields) : a = b := by
  obtain ⟨ga, aa, va, ca, ta⟩ := a
  obtain ⟨gb, ab, vb, cb, tb⟩ := b
  simp only [fields, List.cons_append, List.nil_append, List.append_assoc, List.cons.injEq,
    Prod.mk.injEq, true_and] at h
  obtain ⟨rfl, rfl, rfl, h⟩ := h
  -- The optional elements are told apart by their names.
  by_cases ha : ta = defaultType <;> by_cases hb : tb = defaultType <;>
    cases ca <;> cases cb <;> simp_all

theorem Project.children_inj {p q : Project} (h : p.children = q.children) : p = q := by
  obtain ⟨gp, ap, vp, dp⟩ := p
  obtain ⟨gq, aq, vq, dq⟩ := q
  simp_all [children]

theorem unambiguousElement_textElement : UnambiguousElement TextElement where
  isNode _ _ := Leaf.isNode
  unique _ _ _ hv hw := by
    obtain ⟨hname, htext⟩ := Leaf.unique hv hw
    exact Prod.ext hname htext

theorem unambiguousContent_isDependency : UnambiguousContent IsDependency :=
  unambiguousElement_textElement.spaced.of_injective fun _ _ => Coordinate.fields_inj

theorem unambiguousContent_dependencies :
    UnambiguousContent (Spaced (Element "dependency" IsDependency)) :=
  (unambiguousContent_isDependency.enclosed "dependency").spaced

/-- An element with a text is not the list of dependencies if it has another name. -/
theorem eq_dependencies_of_leaf {es : List Event} {name text : String}
    {coordinates : List Coordinate} (hleaf : Leaf name es text)
    (h : Element "dependencies" (Spaced (Element "dependency" IsDependency)) es coordinates) :
    name = "dependencies" := by
  cases h with
  | mk hname _ => exact (leaf_enclosed_iff.mp hleaf).1.symm.trans hname

theorem unambiguousElement_childElement : UnambiguousElement ChildElement where
  isNode es child h := by
    cases h with
    | text _ h => exact h.isNode
    | dependencies h => exact h.isNode unambiguousContent_dependencies.isBalanced
  unique es v w hv hw := by
    cases hv with
    | text hother hv =>
        cases hw with
        | text _ hw =>
            obtain ⟨rfl, rfl⟩ := hv.unique hw
            rfl
        | dependencies hw => exact absurd (eq_dependencies_of_leaf hv hw) hother
    | dependencies hv =>
        cases hw with
        | text hother hw => exact absurd (eq_dependencies_of_leaf hw hv) hother
        | dependencies hw =>
            rw [(unambiguousContent_dependencies.enclosed _).unique _ _ _ hv hw]

theorem unambiguousContent_isProject : UnambiguousContent IsProject :=
  unambiguousElement_childElement.spaced.of_injective fun _ _ => Project.children_inj

/-- A POM says one thing. -/
theorem IsPom.unique {es : List Event} {p q : Project} (hp : IsPom es p) (hq : IsPom es q) :
    p = q := by
  have hprojects := (unambiguousContent_isProject.enclosed "project").spaced_unique hp hq
  exact (List.cons.inj hprojects).1

end Unambiguity

section Writing

variable {depth : Nat}

theorem isLaidOutAs_textItem {name : String} (hname : isName name = true)
    (hlocal : (plainTag name).localName = name) (text : String) :
    IsLaidOutAs TextElement depth [CompanionPom.textItem name text] [(name, text)] :=
  .leaf hname (leaf_enclosed_iff.mpr ⟨hlocal, texts_ofWritten text⟩)

/-- The lines of a dependency are its element. -/
theorem isLaidOutAs_dependencyItems (artifactId : String) (c : Coordinate) :
    IsLaidOutAs (Element "dependency" IsDependency) depth
      (CompanionPom.dependencyItems artifactId c) [{ c with artifactId := artifactId }] := by
  have hfields : IsLaidOutAs TextElement (depth + 1)
      ([CompanionPom.textItem "groupId" c.groupId, CompanionPom.textItem "artifactId" artifactId,
          CompanionPom.textItem "version" c.version] ++
        (c.classifier.map (CompanionPom.textItem "classifier")).toList ++
        (if c.type = defaultType then [] else [CompanionPom.textItem "type" c.type]) ++
        [CompanionPom.textItem "scope" "compile"])
      (Coordinate.fields { c with artifactId := artifactId }) := by
    refine .append (.append (.append ?_ ?_) ?_) (isLaidOutAs_textItem (by decide) (by decide) _)
    · exact (isLaidOutAs_textItem (by decide) (by decide) _).append
        ((isLaidOutAs_textItem (by decide) (by decide) _).append
          (isLaidOutAs_textItem (by decide) (by decide) _))
    · cases c.classifier with
      | none => exact .nil
      | some classifier => exact isLaidOutAs_textItem (by decide) (by decide) _
    · split
      · exact .nil
      · exact isLaidOutAs_textItem (by decide) (by decide) _
  have htag : (plainTag "dependency").IsWritable := isWritable_plainTag (by decide)
  have hlines : IsLaidOutAs (Element "dependency" IsDependency) depth _
      [{ c with artifactId := artifactId }] :=
    .enclosing htag hfields fun es hes => .mk (by decide) hes
  simpa [CompanionPom.dependencyItems, plainTag] using hlines

/-- The lines of the dependencies: companions first. -/
theorem isLaidOutAs_dependencies (pom : CompanionPom) :
    IsLaidOutAs (Element "dependency" IsDependency) depth
      (pom.cordapps.flatMap
          (fun c => CompanionPom.dependencyItems (companionId c.groupId c.artifactId) c) ++
        pom.provided.flatMap (fun c => CompanionPom.dependencyItems c.artifactId c))
      pom.project.dependencies := by
  have hcordapp (c : Coordinate) : IsLaidOutAs (Element "dependency" IsDependency) depth
      (CompanionPom.dependencyItems (companionId c.groupId c.artifactId) c) [c.companion] :=
    isLaidOutAs_dependencyItems _ c
  have hprovided (c : Coordinate) : IsLaidOutAs (Element "dependency" IsDependency) depth
      (CompanionPom.dependencyItems c.artifactId c) [id c] :=
    isLaidOutAs_dependencyItems _ c
  have hall := (IsLaidOutAs.flatMap hcordapp pom.cordapps).append
    (IsLaidOutAs.flatMap hprovided pom.provided)
  rwa [List.map_id] at hall

theorem isLaidOutAs_text {name : String} (hname : isName name = true)
    (hlocal : (plainTag name).localName = name) (hother : name ≠ "dependencies") (text : String) :
    IsLaidOutAs ChildElement depth [CompanionPom.textItem name text] [.text name text] :=
  .leaf hname (.text hother (leaf_enclosed_iff.mpr ⟨hlocal, texts_ofWritten text⟩))

/-- The lines of a POM are the element of its project. -/
theorem CompanionPom.isLaidOutAs_items (pom : CompanionPom) :
    IsLaidOutAs (Element "project" IsProject) 0 pom.items [pom.project] := by
  have hlist : (plainTag "dependencies").IsWritable := isWritable_plainTag (by decide)
  have hdependencies : IsLaidOutAs ChildElement 1 _ [.dependencies pom.project.dependencies] :=
    .enclosing hlist (isLaidOutAs_dependencies pom) fun es hes => .dependencies (.mk (by decide) hes)
  have hchildren : IsLaidOutAs ChildElement 1 _ pom.project.children :=
    (isLaidOutAs_text (by decide) (by decide) (by decide) "4.0.0").append <|
    (isLaidOutAs_text (by decide) (by decide) (by decide) pom.groupId).append <|
    (isLaidOutAs_text (by decide) (by decide) (by decide) pom.artifactId).append <|
    (isLaidOutAs_text (by decide) (by decide) (by decide) pom.version).append <|
    (isLaidOutAs_text (by decide) (by decide) (by decide) "pom").append hdependencies
  have htag : (⟨"project", [⟨"xmlns", pomNamespace⟩, ⟨"xmlns:xsi", schemaInstance⟩,
      ⟨"xsi:schemaLocation", schemaLocation⟩]⟩ : Tag).IsWritable :=
    ⟨by decide, by decide, by decide⟩
  have hlines : IsLaidOutAs (Element "project" IsProject) 0 _ [pom.project] :=
    .enclosing htag hchildren fun es hes => .mk (by decide) hes
  simpa [items, plainTag] using hlines

end Writing

/-- The lines of a POM are those of what it says. -/
theorem CompanionPom.items_eq_of_project (pom : CompanionPom) :
    pom.items =
      items ⟨pom.groupId, pom.artifactId, pom.version, [], pom.project.dependencies⟩ := by
  have hcompanion (c : Coordinate) : dependencyItems c.companion.artifactId c.companion =
      dependencyItems (companionId c.groupId c.artifactId) c :=
    rfl
  simp only [items, project, List.flatMap_append, List.flatMap_map, hcompanion, List.flatMap_nil,
    List.append_nil, List.append_assoc]

end CpkProvenance.Maven
