import CpkProvenance.Proofs.Manifest.Lines
import CpkProvenance.Proofs.Manifest.WellFormed

/-!
# The manifests that are accepted

A file renders headers if it can be written from them: each header on lines of its own and
folded at any bytes, a blank line or several before each section, and any line endings. A
file is accepted exactly if its lines are well-formed, it is then read as the headers that
it renders, and every list of legal headers is rendered by some file.
-/

namespace CpkProvenance.Manifest

/-- The lines after the main headers, for sections with the given names and headers. Every
section comes after a blank line, and a section is named by its first `Name` header. -/
inductive IsSections : List Bytes → List (String × Attributes) → Prop
  | nil : IsSections [] []
  | blank {rest : List Bytes} {sections : List (String × Attributes)}
      (others : IsSections rest sections) : IsSections ([] :: rest) sections
  | cons {group rest : List Bytes} {name : String} {attributes : Attributes}
      {sections : List (String × Attributes)} (isGroup : IsGroup group attributes)
      (named : attributes.get? "Name" = some name) (others : IsSections rest sections) :
      IsSections ([] :: (group ++ rest)) ((name, attributes) :: sections)

/-- The file can be written from the headers. -/
def Renders (main : Attributes) (sections : List (String × Attributes)) (raw : Bytes) : Prop :=
  ∃ ls group rest, IsCut raw ls ∧ ls.map Line.content = group ++ rest ∧
    IsGroup group main ∧ IsSections rest sections

/-- The name and the headers of a section. -/
def Section.entry (s : Section) : String × Attributes :=
  (s.name, s.attributes)

section Sections

variable {group rest : List Bytes} {main : Attributes} {sections : List (String × Attributes)}

theorem isGroup_nil_iff : IsGroup [] main ↔ main = [] := by
  constructor
  · rintro ⟨headers, hfolding, hheaders⟩
    cases hfolding
    cases hheaders
    rfl
  · rintro rfl
    exact ⟨[], .nil, .nil⟩

theorem isSections_nil_iff : IsSections [] sections ↔ sections = [] := by
  constructor
  · intro h
    cases h
    rfl
  · rintro rfl
    exact .nil

theorem IsSections.isBroken (h : IsSections rest sections) : IsBroken rest := by
  cases h with
  | nil => exact isBroken_nil
  | blank _ => exact isBroken_blank
  | cons _ _ _ => exact isBroken_blank

/-- The lines up to the next blank one are either none or the headers of the first section. -/
theorem isSections_blank_iff (hgroup : ∀ line ∈ group, line ≠ []) (hrest : IsBroken rest) :
    IsSections ([] :: (group ++ rest)) sections ↔
      (group = [] ∧ IsSections rest sections) ∨
        ∃ entry others, (group ≠ [] ∧ IsGroup group entry.2 ∧
          entry.2.get? "Name" = some entry.1) ∧ IsSections rest others ∧
          sections = entry :: others := by
  constructor
  · intro h
    generalize hlines : [] :: (group ++ rest) = lines at h
    cases h with
    | nil => cases hlines
    | blank hothers =>
        obtain rfl := (List.cons.inj hlines).2
        obtain ⟨rfl, _⟩ := append_inj_of_isBroken hgroup (List.forall_mem_nil _) hrest
          hothers.isBroken (List.nil_append _).symm
        exact .inl ⟨rfl, hothers⟩
    | @cons group' rest' name attributes others hgroup' hnamed hothers =>
        obtain ⟨rfl, rfl⟩ := append_inj_of_isBroken hgroup hgroup'.visible hrest
          hothers.isBroken (List.cons.inj hlines).2
        refine .inr ⟨(name, attributes), others, ⟨?_, hgroup', hnamed⟩, hothers, rfl⟩
        rintro rfl
        rw [isGroup_nil_iff.mp hgroup'] at hnamed
        cases hnamed
  · rintro (⟨rfl, h⟩ | ⟨⟨name, attributes⟩, others, ⟨_, hattributes, hnamed⟩, hothers, rfl⟩)
    · exact .blank h
    · exact .cons hattributes hnamed hothers

/-- The main headers are those up to the first blank line. -/
theorem exists_append_iff (hgroup : ∀ line ∈ group, line ≠ []) (hrest : IsBroken rest) :
    (∃ front back, group ++ rest = front ++ back ∧ IsGroup front main ∧
      IsSections back sections) ↔ IsGroup group main ∧ IsSections rest sections := by
  constructor
  · rintro ⟨front, back, heq, hfront, hback⟩
    obtain ⟨rfl, rfl⟩ := append_inj_of_isBroken hgroup hfront.visible hrest hback.isBroken heq
    exact ⟨hfront, hback⟩
  · rintro ⟨hmain, hsections⟩
    exact ⟨group, rest, rfl, hmain, hsections⟩

end Sections

section Blocks

/-- The block is the section of the given name and headers. -/
def Block.Holds (b : Block) (entry : String × Attributes) : Prop :=
  b.attributes = .ok entry.2 ∧ entry.2.get? "Name" = some entry.1

variable {b : Block} {bs : List Block} {ls : List Line} {rest : List Bytes}
  {sections : List (String × Attributes)}

theorem Block.toSection_eq_ok_iff {s : Section} :
    b.toSection = .ok s ↔ b.Holds s.entry ∧ s.bytes = b.bytes := by
  rw [Block.toSection, bind_eq_ok_iff]
  constructor
  · rintro ⟨attributes, hattributes, h⟩
    split at h
    · cases h
    · next name hname =>
        obtain rfl := Except.ok.inj h
        exact ⟨⟨hattributes, hname⟩, rfl⟩
  · rintro ⟨⟨hattributes, hname⟩, hbytes⟩
    refine ⟨s.attributes, hattributes, ?_⟩
    have hlookup : s.attributes.get? "Name" = some s.name := hname
    rw [hlookup, ← hbytes]
    rfl

theorem mapM_toSection_iff :
    (∃ found, bs.mapM Block.toSection = .ok found ∧ found.map Section.entry = sections) ↔
      List.Forall₂ Block.Holds bs sections := by
  simp only [mapM_eq_ok_iff, Block.toSection_eq_ok_iff]
  constructor
  · rintro ⟨found, hfound, rfl⟩
    rw [List.forall₂_map_right_iff]
    exact hfound.imp fun _ _ h => h.1
  · intro h
    induction h with
    | nil => exact ⟨[], .nil, rfl⟩
    | @cons b entry bs sections hentry _ ih =>
        obtain ⟨found, hfound, rfl⟩ := ih
        exact ⟨⟨entry.1, entry.2, b.bytes⟩ :: found, .cons ⟨hentry, rfl⟩ hfound, rfl⟩

/-- One block more, before blocks whose lines are known to hold sections. -/
theorem isSections_block_iff {body : List Line} {blank : Option Line}
    (hvisible : ∀ l ∈ body, l.content ≠ []) (hrest : IsBroken rest)
    (h : ∀ sections, IsSections rest sections ↔
      List.Forall₂ Block.Holds (bs.filter (·.body ≠ [])) sections) :
    IsSections ([] :: (body.map Line.content ++ rest)) sections ↔
      List.Forall₂ Block.Holds ((⟨body, blank⟩ :: bs).filter (·.body ≠ [])) sections := by
  rw [isSections_blank_iff (visible_contents hvisible) hrest]
  by_cases hbody : body = []
  · rw [List.filter_cons_of_neg (by simp [hbody]), ← h, hbody]
    simp
  · have hholds : ∀ entry, Block.Holds ⟨body, blank⟩ entry ↔
        IsGroup (body.map Line.content) entry.2 ∧ entry.2.get? "Name" = some entry.1 := by
      intro entry
      rw [Block.Holds, Block.attributes_eq_ok_iff hvisible]
    have hne : body.map Line.content ≠ [] := fun hempty => hbody (List.map_eq_nil_iff.mp hempty)
    rw [List.filter_cons_of_pos (by simp [hbody]), List.forall₂_cons_left_iff,
      or_iff_right fun hempty => hne hempty.1]
    simp only [h, hholds, hne, ne_eq, not_false_iff, true_and]

theorem isSections_nil_iff_forall₂ (sections : List (String × Attributes)) :
    IsSections [] sections ↔
      List.Forall₂ Block.Holds (([] : List Block).filter (·.body ≠ [])) sections := by
  rw [isSections_nil_iff, List.filter_nil, List.forall₂_nil_left_iff]

theorem IsBlocked.isSections_iff (hblocked : IsBlocked ls bs) :
    IsSections ([] :: ls.map Line.content) sections ↔
      List.Forall₂ Block.Holds (bs.filter (·.body ≠ [])) sections := by
  induction hblocked generalizing sections with
  | nil =>
      rw [← isSections_nil_iff_forall₂]
      exact (isSections_blank_iff (List.forall_mem_nil _) isBroken_nil).trans (by simp)
  | @last body hne hvisible =>
      rw [← List.append_nil (body.map Line.content)]
      exact isSections_block_iff hvisible isBroken_nil isSections_nil_iff_forall₂
  | @cons body rest l bs hvisible hblank _ ih =>
      rw [List.map_append, List.map_cons, hblank]
      exact isSections_block_iff hvisible isBroken_blank fun sections => ih

/-- The lines of some blocks, cut after the main headers. -/
theorem IsBlocked.exists_append_iff {first : Block} {main : Attributes}
    (hblocked : IsBlocked ls (first :: bs)) :
    (∃ front back, ls.map Line.content = front ++ back ∧ IsGroup front main ∧
      IsSections back sections) ↔ first.attributes = .ok main ∧
        List.Forall₂ Block.Holds (bs.filter (·.body ≠ [])) sections := by
  cases hblocked with
  | last _ hvisible =>
      rw [← List.append_nil (ls.map Line.content),
        Manifest.exists_append_iff (visible_contents hvisible) isBroken_nil,
        Block.attributes_eq_ok_iff hvisible, isSections_nil_iff_forall₂]
  | cons hvisible hblank hothers =>
      rw [List.map_append, List.map_cons, hblank,
        Manifest.exists_append_iff (visible_contents hvisible) isBroken_blank,
        Block.attributes_eq_ok_iff hvisible, hothers.isSections_iff]

end Blocks

section Files

variable {raw : Bytes} {main : Attributes} {sections : List (String × Attributes)}

theorem renders_iff : Renders main sections raw ↔
    ∃ group rest, (lines raw).map Line.content = group ++ rest ∧ IsGroup group main ∧
      IsSections rest sections := by
  constructor
  · rintro ⟨ls, group, rest, hcut, h⟩
    rw [hcut.eq_lines] at h
    exact ⟨group, rest, h⟩
  · rintro ⟨group, rest, h⟩
    exact ⟨lines raw, group, rest, isCut_lines raw, h⟩

theorem parse_of_blocks {first : Block} {rest : List Block}
    (h : blocks (lines raw) = first :: rest) :
    (∃ m, parse raw = .ok m ∧ m.main = main ∧ m.sections.map Section.entry = sections) ↔
      first.attributes = .ok main ∧
        List.Forall₂ Block.Holds (rest.filter (·.body ≠ [])) sections := by
  rw [← mapM_toSection_iff, parse, h]
  simp only [bind_eq_ok_iff]
  constructor
  · rintro ⟨m, ⟨attributes, hmain, found, hfound, hm⟩, rfl, rfl⟩
    obtain rfl := Except.ok.inj hm
    exact ⟨hmain, found, hfound, rfl⟩
  · rintro ⟨hmain, found, hfound, rfl⟩
    exact ⟨⟨raw, main, first.bytes, found⟩, ⟨main, hmain, found, hfound, rfl⟩, rfl, rfl⟩

theorem parse_of_blocks_nil (h : blocks (lines raw) = []) :
    (∃ m, parse raw = .ok m ∧ m.main = main ∧ m.sections.map Section.entry = sections) ↔
      main = [] ∧ sections = [] := by
  rw [parse, h]
  constructor
  · rintro ⟨m, hm, rfl, rfl⟩
    obtain rfl := Except.ok.inj hm
    exact ⟨rfl, rfl⟩
  · rintro ⟨rfl, rfl⟩
    exact ⟨_, rfl, rfl, rfl⟩

/-- A file is read as the headers that it renders. -/
theorem exists_parse_iff_renders :
    (∃ m, parse raw = .ok m ∧ m.main = main ∧ m.sections.map Section.entry = sections) ↔
      Renders main sections raw := by
  have hblocked := isBlocked_blocks (lines raw)
  rw [renders_iff]
  cases hblocks : blocks (lines raw) with
  | nil =>
      rw [hblocks] at hblocked
      rw [parse_of_blocks_nil hblocks, hblocked.eq_nil]
      exact ((exists_append_iff (List.forall_mem_nil _) isBroken_nil).trans
        (and_congr isGroup_nil_iff isSections_nil_iff)).symm
  | cons first rest =>
      rw [hblocks] at hblocked
      rw [parse_of_blocks hblocks, hblocked.exists_append_iff]

end Files

section Accepted

variable {group rest : List Bytes} {ls : List Line} {bs : List Block}

/-- One group more, before lines that are known to be well-formed if they hold sections. -/
theorem isWellFormed_group_iff (hgroup : ∀ line ∈ group, line ≠ []) (hrest : IsBroken rest)
    (h : IsWellFormed rest ↔ ∃ sections, IsSections rest sections) :
    IsWellFormed ([] :: (group ++ rest)) ↔
      ∃ sections, IsSections ([] :: (group ++ rest)) sections := by
  simp only [isWellFormed_later_iff hgroup hrest, isSections_blank_iff hgroup hrest, h]
  constructor
  · rintro ⟨⟨attributes, hattributes, hname⟩, sections, hsections⟩
    by_cases hne : group = []
    · exact ⟨sections, .inl ⟨hne, hsections⟩⟩
    · obtain ⟨name, hname⟩ := hname hne
      exact ⟨_, .inr ⟨(name, attributes), sections, ⟨hne, hattributes, hname⟩, hsections, rfl⟩⟩
  · rintro ⟨sections, ⟨rfl, hsections⟩ | ⟨entry, others, ⟨_, hentry, hname⟩, hothers, _⟩⟩
    · exact ⟨⟨[], isGroup_nil_iff.mpr rfl, fun hne => absurd rfl hne⟩, sections, hsections⟩
    · exact ⟨⟨entry.2, hentry, fun _ => ⟨entry.1, hname⟩⟩, others, hothers⟩

theorem isWellFormed_nil_iff : IsWellFormed [] ↔ ∃ sections, IsSections [] sections :=
  iff_of_true isWellFormed_nil ⟨[], .nil⟩

theorem IsBlocked.isWellFormed_iff (hblocked : IsBlocked ls bs) :
    IsWellFormed ([] :: ls.map Line.content) ↔
      ∃ sections, IsSections ([] :: ls.map Line.content) sections := by
  induction hblocked with
  | nil => exact isWellFormed_group_iff (List.forall_mem_nil _) isBroken_nil isWellFormed_nil_iff
  | @last body _ hvisible =>
      rw [← List.append_nil (body.map Line.content)]
      exact isWellFormed_group_iff (visible_contents hvisible) isBroken_nil
        isWellFormed_nil_iff
  | cons hvisible hblank _ ih =>
      rw [List.map_append, List.map_cons, hblank]
      exact isWellFormed_group_iff (visible_contents hvisible) isBroken_blank ih

theorem exists_isGroup_append_iff (hgroup : ∀ line ∈ group, line ≠ []) (hrest : IsBroken rest)
    (h : IsWellFormed rest ↔ ∃ sections, IsSections rest sections) :
    (∃ main sections front back, group ++ rest = front ++ back ∧ IsGroup front main ∧
      IsSections back sections) ↔ IsWellFormed (group ++ rest) := by
  simp only [exists_append_iff hgroup hrest, isWellFormed_append_iff hgroup hrest, h,
    exists_and_left, exists_and_right]

/-- Files that render some headers are those with well-formed lines. -/
theorem exists_renders_iff {raw : Bytes} :
    (∃ main sections, Renders main sections raw) ↔
      IsWellFormed ((lines raw).map Line.content) := by
  simp only [renders_iff]
  have hblocked := isBlocked_blocks (lines raw)
  generalize blocks (lines raw) = bs at hblocked
  generalize lines raw = ls at hblocked ⊢
  cases hblocked with
  | nil =>
      exact exists_isGroup_append_iff (List.forall_mem_nil _) isBroken_nil isWellFormed_nil_iff
  | last _ hvisible =>
      rw [← List.append_nil (ls.map Line.content)]
      exact exists_isGroup_append_iff (visible_contents hvisible) isBroken_nil
        isWellFormed_nil_iff
  | cons hvisible hblank hothers =>
      rw [List.map_append, List.map_cons, hblank]
      exact exists_isGroup_append_iff (visible_contents hvisible) isBroken_blank
        hothers.isWellFormed_iff

end Accepted

section Legal

/-- A header that can be written: the name is not empty, begins with no space and has no
colon that a space follows, and neither the name nor the value breaks a line. -/
structure Attribute.IsLegal (a : Attribute) : Prop where
  nonempty : a.name.toList ≠ []
  whole : ¬ [':', ' '] <:+: a.name.toList
  own : a.name.toList.head? ≠ some ' '
  unbroken : ∀ c ∈ a.name.toList ++ a.value.toList, c ≠ '\r' ∧ c ≠ '\n'

variable {a : Attribute} {text : List Char} {header : Bytes} {contents : List Bytes}

theorem isUnbroken_encode_iff :
    IsUnbroken (Utf8.encode text) ↔ ∀ c ∈ text, c ≠ '\r' ∧ c ≠ '\n' := by
  have hcr : (13 : UInt8) ∈ Utf8.encode text ↔ '\r' ∈ text := Utf8.mem_encode_iff (by decide)
  have hlf : (10 : UInt8) ∈ Utf8.encode text ↔ '\n' ∈ text := Utf8.mem_encode_iff (by decide)
  constructor
  · intro h c hc
    constructor
    · rintro rfl
      exact (h 13 (hcr.mpr hc)).1 rfl
    · rintro rfl
      exact (h 10 (hlf.mpr hc)).2 rfl
  · intro h b hb
    constructor
    · rintro rfl
      exact (h _ (hcr.mp hb)).1 rfl
    · rintro rfl
      exact (h _ (hlf.mp hb)).2 rfl

theorem isOwn_encode_iff : IsOwn (Utf8.encode text) ↔ text.head? ≠ some ' ' :=
  not_congr (Utf8.head?_encode_eq_iff (by decide))

theorem Spells.sound {name value : List Char} (h : Spells name value text) :
    name ≠ [] ∧ ¬ [':', ' '] <:+: name ∧ text.head? = name.head? ∧ name ++ value ⊆ text := by
  cases h with
  | full hne hfirst =>
      refine ⟨hne, hfirst, List.head?_append_of_ne_nil _ hne, ?_⟩
      apply List.append_subset.mpr ⟨List.subset_append_left name _, ?_⟩
      intro c hc
      exact List.mem_append_right name (List.mem_cons_of_mem ':' (List.mem_cons_of_mem ' ' hc))
  | bare hne hnone =>
      refine ⟨hne, fun h => hnone ?_, List.head?_append_of_ne_nil _ hne, by simp⟩
      exact h.trans (List.prefix_append name [':']).isInfix

theorem IsHeader.isLegal (h : IsHeader header a) (hunbroken : IsUnbroken header)
    (hown : IsOwn header) : a.IsLegal := by
  obtain ⟨text, rfl, hspells⟩ := h
  obtain ⟨hne, hwhole, hhead, hsubset⟩ := hspells.sound
  rw [isUnbroken_encode_iff] at hunbroken
  rw [isOwn_encode_iff, hhead] at hown
  exact ⟨hne, hwhole, hown, fun c hc => hunbroken c (hsubset hc)⟩

theorem Attribute.IsLegal.exists_isHeader (h : a.IsLegal) :
    ∃ header, IsHeader header a ∧ header ≠ [] ∧ IsOwn header ∧ IsUnbroken header := by
  refine ⟨_, ⟨_, rfl, .full h.nonempty h.whole⟩, ?_, ?_, ?_⟩
  · rw [Ne, Utf8.encode_eq_iff_of_ascii (List.forall_mem_nil _), List.map_nil]
    exact List.append_ne_nil_of_left_ne_nil h.nonempty _
  · rw [isOwn_encode_iff, List.head?_append_of_ne_nil _ h.nonempty]
    exact h.own
  · obtain ⟨hname, hvalue⟩ := List.forall_mem_append.mp h.unbroken
    rw [isUnbroken_encode_iff, List.forall_mem_append, List.forall_mem_cons, List.forall_mem_cons]
    exact ⟨hname, by decide, by decide, hvalue⟩

theorem IsFolding.isUnbroken {headers : List Bytes} (h : IsFolding contents headers)
    (hcontents : ∀ line ∈ contents, IsUnbroken line) :
    ∀ header ∈ headers, IsUnbroken header ∧ IsOwn header := by
  induction h with
  | nil => exact List.forall_mem_nil _
  | @cons first pieces rest headers hne hown _ ih =>
      rw [List.forall_mem_cons, List.forall_mem_append, List.forall_mem_map] at hcontents
      obtain ⟨hfirst, hpieces, hrest⟩ := hcontents
      refine List.forall_mem_cons.mpr ⟨⟨?_, ?_⟩, ih hrest⟩
      · refine List.forall_mem_append.mpr ⟨hfirst, fun b hb => ?_⟩
        obtain ⟨piece, hpiece, hb⟩ := List.mem_flatten.mp hb
        exact hpieces piece hpiece b (List.mem_cons_of_mem 32 hb)
      · rw [IsOwn, List.head?_append_of_ne_nil _ hne]
        exact hown

/-- Headers are held by some lines without line breaks if and only if they are legal. -/
theorem exists_isGroup_iff_isLegal {attributes : Attributes} :
    (∃ contents, IsGroup contents attributes ∧ ∀ line ∈ contents, IsUnbroken line) ↔
      ∀ a ∈ attributes, a.IsLegal := by
  constructor
  · rintro ⟨contents, ⟨headers, hfolding, hheaders⟩, hcontents⟩ a ha
    obtain ⟨header, hmem, hheader⟩ := exists_of_forall₂_right hheaders ha
    obtain ⟨hunbroken, hown⟩ := hfolding.isUnbroken hcontents header hmem
    exact hheader.isLegal hunbroken hown
  · intro h
    induction attributes with
    | nil => exact ⟨[], isGroup_nil_iff.mpr rfl, List.forall_mem_nil _⟩
    | cons a attributes ih =>
        obtain ⟨ha, hattributes⟩ := List.forall_mem_cons.mp h
        obtain ⟨header, hheader, hne, hown, hunbroken⟩ := ha.exists_isHeader
        obtain ⟨contents, ⟨headers, hfolding, hheaders⟩, hcontents⟩ := ih hattributes
        have hfolded := @IsFolding.cons header [] contents headers hne hown hfolding
        rw [List.flatten_nil, List.append_nil] at hfolded
        exact ⟨header :: contents, ⟨header :: headers, hfolded, .cons hheader hheaders⟩,
          List.forall_mem_cons.mpr ⟨hunbroken, hcontents⟩⟩

/-- A section with legal headers, the first `Name` header of which is its name. -/
def IsLegalSection (entry : String × Attributes) : Prop :=
  (∀ a ∈ entry.2, a.IsLegal) ∧ entry.2.get? "Name" = some entry.1

theorem exists_isSections_iff_isLegal {sections : List (String × Attributes)} :
    (∃ contents, IsSections contents sections ∧ ∀ line ∈ contents, IsUnbroken line) ↔
      ∀ entry ∈ sections, IsLegalSection entry := by
  constructor
  · rintro ⟨contents, h, hcontents⟩
    induction h with
    | nil => exact List.forall_mem_nil _
    | blank _ ih => exact ih (List.forall_mem_cons.mp hcontents).2
    | cons hgroup hnamed _ ih =>
        obtain ⟨hlines, hrest⟩ := List.forall_mem_append.mp (List.forall_mem_cons.mp hcontents).2
        refine List.forall_mem_cons.mpr ⟨⟨?_, hnamed⟩, ih hrest⟩
        exact exists_isGroup_iff_isLegal.mp ⟨_, hgroup, hlines⟩
  · intro h
    induction sections with
    | nil => exact ⟨[], .nil, List.forall_mem_nil _⟩
    | cons entry sections ih =>
        obtain ⟨⟨hlegal, hnamed⟩, hsections⟩ := List.forall_mem_cons.mp h
        obtain ⟨group, hgroup, hlines⟩ := exists_isGroup_iff_isLegal.mpr hlegal
        obtain ⟨rest, hrest, hothers⟩ := ih hsections
        refine ⟨[] :: (group ++ rest), .cons hgroup hnamed hrest, ?_⟩
        rw [List.forall_mem_cons, List.forall_mem_append]
        exact ⟨isUnbroken_nil, hlines, hothers⟩

/-- Every list of legal headers is rendered by some file, and no other. -/
theorem exists_renders_iff_isLegal {main : Attributes} {sections : List (String × Attributes)} :
    (∃ raw, Renders main sections raw) ↔
      (∀ a ∈ main, a.IsLegal) ∧ ∀ entry ∈ sections, IsLegalSection entry := by
  rw [← exists_isGroup_iff_isLegal, ← exists_isSections_iff_isLegal]
  constructor
  · rintro ⟨raw, ls, group, rest, hcut, hlines, hmain, hsections⟩
    have hunbroken := exists_isCut_iff.mp ⟨raw, ls, hcut, hlines⟩
    obtain ⟨hgroup, hrest⟩ := List.forall_mem_append.mp hunbroken
    exact ⟨⟨group, hmain, hgroup⟩, rest, hsections, hrest⟩
  · rintro ⟨⟨group, hmain, hgroup⟩, rest, hsections, hrest⟩
    obtain ⟨raw, ls, hcut, hlines⟩ :=
      exists_isCut_iff.mpr (List.forall_mem_append.mpr ⟨hgroup, hrest⟩)
    exact ⟨raw, ls, group, rest, hcut, hlines, hmain, hsections⟩

end Legal

/-- What parsing accepts and how it is read. Every file has one cut into lines, and is
accepted if and only if these are well-formed. It is read as given headers if and only if
it renders them, in whatever way, and the headers for which there is such a file are the
legal ones. -/
theorem parse_grammar :
    (∀ raw, ∃ ls, (∀ other, IsCut raw other ↔ other = ls) ∧
      ((∃ m, parse raw = .ok m) ↔ IsWellFormed (ls.map Line.content))) ∧
    (∀ raw main sections,
      (∃ m, parse raw = .ok m ∧ m.main = main ∧ m.sections.map Section.entry = sections) ↔
        Renders main sections raw) ∧
    ∀ main sections, (∃ raw, Renders main sections raw) ↔
      (∀ a ∈ main, a.IsLegal) ∧ ∀ entry ∈ sections, IsLegalSection entry := by
  refine ⟨fun raw => ⟨lines raw, fun other => isCut_iff, ?_⟩,
    fun raw main sections => exists_parse_iff_renders,
    fun main sections => exists_renders_iff_isLegal⟩
  rw [← exists_renders_iff]
  constructor
  · rintro ⟨m, hm⟩
    exact ⟨m.main, _, exists_parse_iff_renders.mp ⟨m, hm, rfl, rfl⟩⟩
  · rintro ⟨main, sections, hrenders⟩
    obtain ⟨m, hm, _⟩ := exists_parse_iff_renders.mpr hrenders
    exact ⟨m, hm⟩

-- All three endings, two blank lines, and a character that is folded between its two bytes.
example :
    (parse ([65, 58, 32, 0xC3, 13, 10, 32, 0xA9, 10, 13, 10, 13] ++
      Utf8.encode "name: x\rB:".toList)).toOption.map
        (fun m => (m.main, m.sections.map Section.entry)) =
      some ([⟨"A", "é"⟩], [("x", [⟨"name", "x"⟩, ⟨"B", ""⟩])]) := by
  decide +kernel

end CpkProvenance.Manifest
