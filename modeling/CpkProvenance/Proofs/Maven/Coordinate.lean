import CpkProvenance.Maven.Coordinate
import CpkProvenance.Proofs.Maven.PackageUrl

/-!
# Package URLs of artifacts

The URL of an artifact gives its coordinate back. Every part is percent-encoded, so that the
separators of the URL are the only ones in it, and each cut is made at the separator that was
put there, from whichever end it is searched for.
-/

namespace CpkProvenance.Maven

open PackageUrl (Spells artifactType isEncoded percentEncode spells_percentEncode takeLast_append
  takeLast_of_not_mem)

/-- What the URL of an artifact says. Classifier and type may be left out. -/
structure Artifact where
  groupId : String
  artifactId : String
  version : String
  classifier : Option String
  type : Option String
  deriving DecidableEq, Repr

namespace Artifact

def coordinate (a : Artifact) : Coordinate :=
  ⟨a.groupId, a.artifactId, a.version, a.classifier, a.type.getD "jar"⟩

/-- The qualifiers that are there. -/
def qualifiers (a : Artifact) : List (String × String) :=
  (a.classifier.map ("classifier", ·)).toList ++ (a.type.map ("type", ·)).toList

/-- A key and an encoded value. -/
def IsQualifier (written : List Char) (qualifier : String × String) : Prop :=
  ∃ value, Spells value qualifier.2 ∧ written = qualifier.1.toList ++ '=' :: value

/-- Qualifiers after a question mark. -/
def query : List (List Char) → List Char
  | [] => []
  | first :: others => '?' :: (first ++ others.flatMap ('&' :: ·))

/-- The URLs of an artifact, one for each way to encode its parts. -/
def IsUrl (a : Artifact) (url : String) : Prop :=
  ∃ group name version qualifiers, Spells group a.groupId ∧ Spells name a.artifactId ∧
    Spells version a.version ∧ List.Forall₂ IsQualifier qualifiers a.qualifiers ∧
    url = "pkg:maven/" ++ String.ofList group ++ "/" ++ String.ofList name ++ "@" ++
      String.ofList version ++ String.ofList (query qualifiers)

/-- The URL with hexadecimal digits in upper case. -/
def url (a : Artifact) : String :=
  "pkg:maven/" ++ String.ofList (percentEncode a.groupId) ++ "/" ++
    String.ofList (percentEncode a.artifactId) ++ "@" ++
    String.ofList (percentEncode a.version) ++
    String.ofList (query (a.qualifiers.map fun q => q.1.toList ++ '=' :: percentEncode q.2))

theorem isUrl_url (a : Artifact) : a.IsUrl a.url := by
  refine ⟨_, _, _, _, spells_percentEncode _, spells_percentEncode _, spells_percentEncode _,
    ?_, rfl⟩
  rw [List.forall₂_map_left_iff, List.forall₂_same]
  intro q _
  exact ⟨_, spells_percentEncode q.2, rfl⟩

/-- The group is not empty, no relative path and has no slash, and nothing else is there and
empty. -/
structure IsProper (a : Artifact) : Prop where
  group_ne_empty : a.groupId ≠ ""
  group_slash : '/' ∉ a.groupId.toList
  group_ne_dot : a.groupId ≠ "."
  group_ne_dots : a.groupId ≠ ".."
  artifact_ne_empty : a.artifactId ≠ ""
  classifier_ne_empty : a.classifier ≠ some ""
  type_ne_empty : a.type ≠ some ""

section Qualifiers

variable {a : Artifact} {q : String × String} {written : List Char}

theorem mem_qualifiers :
    q ∈ a.qualifiers ↔ (q.1 = "classifier" ∧ a.classifier = some q.2) ∨
      (q.1 = "type" ∧ a.type = some q.2) := by
  obtain ⟨key, value⟩ := q
  cases hclassifier : a.classifier <;> cases htype : a.type <;>
    simp [qualifiers, hclassifier, htype, eq_comm]

theorem key_of_mem (hq : q ∈ a.qualifiers) : q.1 = "classifier" ∨ q.1 = "type" :=
  (mem_qualifiers.mp hq).imp And.left And.left

theorem IsProper.value_ne_empty (h : a.IsProper) (hq : q ∈ a.qualifiers) : q.2 ≠ "" := by
  intro hempty
  rcases mem_qualifiers.mp hq with ⟨_, hclassifier⟩ | ⟨_, htype⟩
  · exact h.classifier_ne_empty (hempty ▸ hclassifier)
  · exact h.type_ne_empty (hempty ▸ htype)

theorem key_table {key : String} (h : key = "classifier" ∨ key = "type") :
    key.toList.all isEncoded = true ∧ '=' ∉ key.toList ∧
      PackageUrl.isWord ['.', '-', '_'] key.toList = true ∧ Text.lower key = key := by
  rcases h with rfl | rfl <;> decide

/-- A written qualifier holds no separator but the one between key and value. -/
theorem not_mem_of_mem {ws : List (List Char)} (hws : List.Forall₂ IsQualifier ws a.qualifiers)
    (hw : written ∈ ws) {c : Char} (hc : isEncoded c = false) (hne : c ≠ '=') : c ∉ written := by
  obtain ⟨q, hq, value, hvalue, rfl⟩ := exists_of_forall₂_left hws hw
  have hkey := (key_table (key_of_mem hq)).1
  intro hmem
  rcases List.mem_append.mp hmem with hmem | hmem
  · rw [List.all_eq_true.mp hkey c hmem] at hc
    cases hc
  · rcases List.mem_cons.mp hmem with heq | hmem
    · exact hne heq
    · exact hvalue.not_mem hc hmem

theorem IsQualifier.qualifier? (h : IsQualifier written q)
    (hkey : q.1 = "classifier" ∨ q.1 = "type") (hne : q.2 ≠ "") :
    PackageUrl.qualifier? written = .ok (some q) := by
  obtain ⟨_, hmark, hword, hlower⟩ := key_table hkey
  obtain ⟨encoded, hvalue, rfl⟩ := h
  have hnil : encoded ≠ [] := fun hnil => hne (hvalue.eq_nil_iff.mp hnil)
  obtain ⟨c, rest, rfl⟩ := List.exists_cons_of_ne_nil hnil
  simp only [PackageUrl.qualifier?, Text.cutFirst?_append hmark, hword, if_true,
    hvalue.percentDecode, ok_bind, String.ofList_toList, hlower, pure, Except.pure]

theorem mapM_qualifier? {ws : List (List Char)} {qs : List (String × String)}
    (hws : List.Forall₂ IsQualifier ws qs)
    (hqs : ∀ q ∈ qs, (q.1 = "classifier" ∨ q.1 = "type") ∧ q.2 ≠ "") :
    ws.mapM PackageUrl.qualifier? = .ok (qs.map some) := by
  rw [mapM_eq_ok_iff]
  induction hws with
  | nil => exact .nil
  | cons hq _ ih =>
      rw [List.forall_mem_cons] at hqs
      exact .cons (hq.qualifier? hqs.1.1 hqs.1.2) (ih hqs.2)

end Qualifiers

section Url

variable {a : Artifact} {url : String}

theorem namespace_of_spells (h : a.IsProper) {group : List Char} (hgroup : Spells group a.groupId) :
    (PackageUrl.pathParts group).mapM PackageUrl.namespaceComponent = .ok [a.groupId] := by
  have hslash : '/' ∉ group := hgroup.not_mem (by decide)
  have hdot : group ≠ ['.'] := by
    rintro rfl
    exact h.group_ne_dot (hgroup.unique (spells_percentEncode "."))
  have hdots : group ≠ ['.', '.'] := by
    rintro rfl
    exact h.group_ne_dots (hgroup.unique (spells_percentEncode ".."))
  have hnil : group ≠ [] := fun hnil => h.group_ne_empty (hgroup.eq_nil_iff.mp hnil)
  have hparts : PackageUrl.pathParts group = [group] := by
    rw [PackageUrl.pathParts, Text.splitAll_of_not_mem hslash]
    simp [hnil, hdot, hdots]
  have hcomponent : PackageUrl.namespaceComponent group = .ok a.groupId := by
    simp only [PackageUrl.namespaceComponent, hgroup.percentDecode, ok_bind]
    rw [if_neg (by simp [h.group_ne_empty, h.group_slash])]
    rfl
  rw [hparts, mapM_eq_ok_iff]
  exact .cons hcomponent .nil

variable {group name version : List Char} {ws : List (List Char)}

/-- A URL between its scheme and its qualifiers. -/
def located (group name version : List Char) : List Char :=
  artifactType ++ '/' :: (group ++ '/' :: name) ++ '@' :: version

theorem not_mem_located (hgroup : Spells group a.groupId) (hname : Spells name a.artifactId)
    (hversion : Spells version a.version) {c : Char} (hc : isEncoded c = false) (hslash : c ≠ '/')
    (hat : c ≠ '@') : c ∉ located group name version := by
  have htype : c ∉ artifactType := by
    intro hmem
    have hletters : artifactType.all isEncoded = true := by decide
    rw [List.all_eq_true.mp hletters c hmem] at hc
    cases hc
  simp only [located, List.mem_append, List.mem_cons, not_or]
  exact ⟨⟨htype, hslash, hgroup.not_mem hc, hslash, hname.not_mem hc⟩, hat, hversion.not_mem hc⟩

theorem not_mem_query (hws : List.Forall₂ IsQualifier ws a.qualifiers) {c : Char}
    (hc : isEncoded c = false) (hquestion : c ≠ '?') (hand : c ≠ '&') (hequals : c ≠ '=') :
    c ∉ query ws := by
  have hnone : ∀ w ∈ ws, c ∉ w := fun w hw => not_mem_of_mem hws hw hc hequals
  cases ws with
  | nil => exact List.not_mem_nil
  | cons first others =>
      rw [List.forall_mem_cons] at hnone
      simp only [query, List.mem_cons, List.mem_append, List.mem_flatMap, not_or, not_exists,
        not_and]
      exact ⟨hquestion, hnone.1, fun w hw => ⟨hand, hnone.2 w hw⟩⟩

theorem qualifiers_of_query (h : a.IsProper) (hws : List.Forall₂ IsQualifier ws a.qualifiers)
    {front : List Char} (hfront : '?' ∉ front) :
    ∃ pairs, PackageUrl.takeLast '?' (front ++ query ws) = (front, pairs) ∧
      (pairs.elim (.ok []) fun pairs =>
        (Text.splitAll '&' pairs).mapM PackageUrl.qualifier?) = .ok (a.qualifiers.map some) := by
  have hread : ws.mapM PackageUrl.qualifier? = .ok (a.qualifiers.map some) :=
    mapM_qualifier? hws fun q hq => ⟨key_of_mem hq, h.value_ne_empty hq⟩
  have hnone {c : Char} (hc : isEncoded c = false) (hne : c ≠ '=') : ∀ w ∈ ws, c ∉ w :=
    fun w hw => not_mem_of_mem hws hw hc hne
  cases ws with
  | nil =>
      refine ⟨none, ?_, hread⟩
      rw [query, List.append_nil, takeLast_of_not_mem hfront]
  | cons first others =>
      have hquestion := hnone (c := '?') (by decide) (by decide)
      have hand := hnone (c := '&') (by decide) (by decide)
      rw [List.forall_mem_cons] at hquestion hand
      refine ⟨some (first ++ others.flatMap ('&' :: ·)), ?_, ?_⟩
      · apply takeLast_append
        simpa using hquestion
      · rw [Option.elim_some, Text.splitAll_append_flatMap hand.1 hand.2, hread]

theorem parse_of_isUrl (h : a.IsProper) (hurl : a.IsUrl url) :
    PackageUrl.parse url =
      .ok ⟨"maven", some a.groupId, a.artifactId, some a.version, a.qualifiers, none⟩ := by
  obtain ⟨group, name, version, ws, hgroup, hname, hversion, hws, hurl⟩ := hurl
  have hscheme : Text.cutFirst? ':' url.toList =
      some (['p', 'k', 'g'], located group name version ++ query ws) := by
    have htext : url.toList = ['p', 'k', 'g'] ++ ':' :: (located group name version ++ query ws) := by
      simp [hurl, located, artifactType]
    rw [htext]
    exact Text.cutFirst?_append (by decide)
  have hsubpath : '#' ∉ located group name version ++ query ws := by
    rw [List.mem_append, not_or]
    exact ⟨not_mem_located hgroup hname hversion (by decide) (by decide) (by decide),
      not_mem_query hws (by decide) (by decide) (by decide) (by decide)⟩
  have hquestion : '?' ∉ located group name version :=
    not_mem_located hgroup hname hversion (by decide) (by decide) (by decide)
  obtain ⟨pairs, hpairs, hqualifiers⟩ := qualifiers_of_query h hws hquestion
  have hgroupSlash : '/' ∉ group := hgroup.not_mem (by decide)
  have hnameSlash : '/' ∉ name := hname.not_mem (by decide)
  have hgroupNe : group ≠ [] := fun hnil => h.group_ne_empty (hgroup.eq_nil_iff.mp hnil)
  have hnameNe : name ≠ [] := fun hnil => h.artifact_ne_empty (hname.eq_nil_iff.mp hnil)
  have hpath : Text.cutLast? '/' (PackageUrl.withoutSlashes (group ++ '/' :: name)) =
      some (group, name) := by
    rw [PackageUrl.withoutSlashes_of_not_mem hgroupSlash hnameSlash hgroupNe hnameNe,
      Text.cutLast?_append hnameSlash]
  have hparse := PackageUrl.parse_of_cuts hscheme rfl (takeLast_of_not_mem hsubpath) hpairs hqualifiers
    (takeLast_append (hversion.not_mem (by decide))) hpath hnameNe hversion.percentDecode
    hname.percentDecode (namespace_of_spells h hgroup) (List.cons_ne_nil _ _)
  simpa using hparse

end Url

theorem get?_qualifiers {a : Artifact} (url : PackageUrl) (h : url.qualifiers = a.qualifiers) :
    url.get? "classifier" = a.classifier ∧ url.get? "type" = a.type := by
  rw [PackageUrl.get?, PackageUrl.get?, h, qualifiers]
  cases a.classifier <;> cases a.type <;> simp

end Artifact

/-- **The URL of an artifact gives its coordinate back.** This holds whatever characters the
parts are made of, and in whichever case the hexadecimal digits are written. -/
theorem Coordinate.parse_url (a : Artifact) (h : a.IsProper) :
    Coordinate.parse a.url = .ok a.coordinate ∧
      ∀ url, a.IsUrl url → Coordinate.parse url = .ok a.coordinate := by
  have hall : ∀ url, a.IsUrl url → Coordinate.parse url = .ok a.coordinate := by
    intro url hurl
    rw [Coordinate.parse, Artifact.parse_of_isUrl h hurl]
    obtain ⟨hclassifier, htype⟩ := Artifact.get?_qualifiers
      ⟨"maven", some a.groupId, a.artifactId, some a.version, a.qualifiers, none⟩ rfl
    simp only [Coordinate.ofPackageUrl, ne_eq, not_true_eq_false, if_false, hclassifier, htype]
    rfl
  exact ⟨hall a.url a.isUrl_url, hall⟩

/-- An artifact whose parts are full of separators. -/
def sampleArtifact : Artifact := ⟨"é.@:", "a?#", "1/2&%41", some "=ü", none⟩

theorem parse_url_sampleArtifact :
    Coordinate.parse "pkg:maven/%C3%A9.%40%3A/a%3F%23@1%2F2%26%2541?classifier=%3D%C3%BC" =
      .ok ⟨"é.@:", "a?#", "1/2&%41", some "=ü", "jar"⟩ := by
  have hproper : sampleArtifact.IsProper :=
    ⟨by decide, by decide, by decide, by decide, by decide, by decide, by decide⟩
  have hurl : sampleArtifact.url =
      "pkg:maven/%C3%A9.%40%3A/a%3F%23@1%2F2%26%2541?classifier=%3D%C3%BC" := by
    decide
  rw [← hurl]
  exact (Coordinate.parse_url sampleArtifact hproper).1

end CpkProvenance.Maven
