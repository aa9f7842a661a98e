import CpkProvenance.Proofs.Manifest.Headers

/-!
# Well-formed lines

Three conditions on the lines of a file, each said of the lines as they stand: which line
may continue another, which headers there are, and which groups of lines need a name. All
three are local, so that they can be checked for each group of lines between blank ones.
-/

namespace CpkProvenance.Manifest

/-- A line that begins a header, joined with the lines that continue it. -/
def IsLogicalHeader (contents : List Bytes) (header : Bytes) : Prop :=
  ∃ (before : List Bytes) (first : Bytes) (pieces after : List Bytes),
    contents = before ++ first :: (pieces.map (32 :: ·) ++ after) ∧ first ≠ [] ∧ IsOwn first ∧
      (∀ next ∈ after.head?, IsOwn next) ∧ header = first ++ pieces.flatten

/-- The lines are at an end, or begin with a blank one. -/
def IsBroken (rest : List Bytes) : Prop :=
  ∀ next ∈ rest.head?, next = []

/-- All lines with content between a blank line and the next one. -/
def IsLaterGroup (contents group : List Bytes) : Prop :=
  ∃ before after, contents = before ++ [] :: (group ++ after) ∧ group ≠ [] ∧
    (∀ line ∈ group, line ≠ []) ∧ IsBroken after

/-- One of the headers is called `Name`, in any case. -/
def HasNameHeader (group : List Bytes) : Prop :=
  ∃ header a, IsLogicalHeader group header ∧ IsHeader header a ∧
    Text.equalIgnoringCase a.name "Name" = true

/-- A blank line has no line that continues it. -/
def MayFollow (line next : Bytes) : Prop :=
  line = [] → IsOwn next

structure IsWellFormed (contents : List Bytes) : Prop where
  /-- No line continues a blank line, and the first line continues none: the beginning
  counts as a blank line. -/
  continued : ([] :: contents).IsChain MayFollow
  headers : ∀ header, IsLogicalHeader contents header → ∃ a, IsHeader header a
  named : ∀ group, IsLaterGroup contents group → HasNameHeader group

section Cuts

variable {group group' rest rest' pieces pieces' after : List Bytes} {first : Bytes}

theorem isBroken_nil : IsBroken [] := by
  rintro next ⟨⟩

theorem isBroken_blank : IsBroken ([] :: rest) := by
  rintro next ⟨⟩
  rfl

/-- Lines with content end where the blank line is, wherever else one may cut. -/
theorem append_inj_of_isBroken (hgroup : ∀ line ∈ group, line ≠ [])
    (hgroup' : ∀ line ∈ group', line ≠ []) (hrest : IsBroken rest) (hrest' : IsBroken rest')
    (h : group ++ rest = group' ++ rest') : group = group' ∧ rest = rest' := by
  induction group generalizing group' with
  | nil =>
      cases group' with
      | nil => exact ⟨rfl, h⟩
      | cons line group' =>
          rw [List.nil_append] at h
          rw [h] at hrest
          exact absurd (hrest line rfl) (hgroup' line List.mem_cons_self)
  | cons line group ih =>
      cases group' with
      | nil =>
          rw [List.nil_append] at h
          rw [← h] at hrest'
          exact absurd (hrest' line rfl) (hgroup line List.mem_cons_self)
      | cons line' group' =>
          obtain ⟨rfl, htail⟩ := List.cons.inj h
          obtain ⟨rfl, rfl⟩ := ih (List.forall_mem_cons.mp hgroup).2
            (List.forall_mem_cons.mp hgroup').2 htail
          exact ⟨rfl, rfl⟩

/-- Continuation lines end at the first line of its own. -/
theorem continuations_inj (hrest : ∀ next ∈ rest.head?, IsOwn next)
    (hafter : ∀ next ∈ after.head?, IsOwn next)
    (h : pieces.map (32 :: ·) ++ rest = pieces'.map (32 :: ·) ++ after) :
    pieces = pieces' ∧ rest = after := by
  induction pieces generalizing pieces' with
  | nil =>
      cases pieces' with
      | nil => exact ⟨rfl, h⟩
      | cons piece pieces' =>
          rw [List.map_nil, List.nil_append] at h
          rw [h] at hrest
          exact absurd (hrest _ rfl) not_isOwn_continuation
  | cons piece pieces ih =>
      cases pieces' with
      | nil =>
          rw [List.map_nil, List.nil_append] at h
          rw [← h] at hafter
          exact absurd (hafter _ rfl) not_isOwn_continuation
      | cons piece' pieces' =>
          obtain ⟨hpiece, htail⟩ := List.cons.inj h
          obtain ⟨rfl, rfl⟩ := ih htail
          obtain ⟨_, rfl⟩ := List.cons.inj hpiece
          exact ⟨rfl, rfl⟩

theorem exists_of_continuations_eq_append (hrest : IsBroken rest)
    (h : pieces.map (32 :: ·) ++ after = group ++ rest) :
    ∃ between, group = pieces.map (32 :: ·) ++ between ∧ after = between ++ rest := by
  rcases List.append_eq_append_iff.mp h with ⟨between, hgroup, hafter⟩ | ⟨extra, hpieces, hextra⟩
  · exact ⟨between, hgroup, hafter⟩
  · cases extra with
    | nil =>
        rw [List.append_nil] at hpieces
        exact ⟨[], by rw [hpieces, List.append_nil], hextra.symm⟩
    | cons line extra =>
        -- The blank line would be one of the continuation lines.
        rw [hextra] at hrest
        have hblank : line = [] := hrest line rfl
        have hmem : line ∈ pieces.map (32 :: ·) := by
          rw [hpieces]
          exact List.mem_append_right group List.mem_cons_self
        obtain ⟨piece, _, rfl⟩ := List.mem_map.mp hmem
        cases hblank

theorem exists_of_continuations_eq_own {before : List Bytes} (hfirst : IsOwn first)
    (h : pieces.map (32 :: ·) ++ rest = before ++ first :: after) :
    ∃ between, rest = between ++ first :: after := by
  rcases List.append_eq_append_iff.mp h with ⟨between, _, hrest⟩ | ⟨extra, hpieces, hextra⟩
  · exact ⟨between, hrest⟩
  · cases extra with
    | nil => exact ⟨[], hextra.symm⟩
    | cons line extra =>
        obtain ⟨rfl, _⟩ := List.cons.inj hextra
        have hmem : first ∈ pieces.map (32 :: ·) := by
          rw [hpieces]
          exact List.mem_append_right before List.mem_cons_self
        obtain ⟨piece, _, rfl⟩ := List.mem_map.mp hmem
        exact absurd hfirst not_isOwn_continuation

end Cuts

section Parts

variable {group rest : List Bytes} {header : Bytes}

theorem IsLogicalHeader.append_left (h : IsLogicalHeader rest header) (front : List Bytes) :
    IsLogicalHeader (front ++ rest) header := by
  obtain ⟨before, first, pieces, after, rfl, h⟩ := h
  exact ⟨front ++ before, first, pieces, after, (List.append_assoc ..).symm, h⟩

theorem isLogicalHeader_blank_iff :
    IsLogicalHeader ([] :: rest) header ↔ IsLogicalHeader rest header := by
  constructor
  · rintro ⟨before, first, pieces, after, heq, hne, h⟩
    cases before with
    | nil => exact absurd (List.cons.inj heq).1.symm hne
    | cons line before =>
        exact ⟨before, first, pieces, after, (List.cons.inj heq).2, hne, h⟩
  · intro h
    exact h.append_left [[]]

/-- No header reaches over a blank line. -/
theorem isLogicalHeader_append_iff (hrest : IsBroken rest) :
    IsLogicalHeader (group ++ rest) header ↔
      IsLogicalHeader group header ∨ IsLogicalHeader rest header := by
  constructor
  · rintro ⟨before, first, pieces, after, heq, hne, hown, hafter, rfl⟩
    rcases List.append_eq_append_iff.mp heq.symm with
      ⟨tail, hgroup, htail⟩ | ⟨front, _, hfront⟩
    · cases tail with
      | nil =>
          rw [List.nil_append] at htail
          rw [← htail] at hrest
          exact absurd (hrest first rfl) hne
      | cons line tail =>
          obtain ⟨rfl, hlines⟩ := List.cons.inj htail
          obtain ⟨between, rfl, rfl⟩ := exists_of_continuations_eq_append hrest hlines
          refine .inl ⟨before, first, pieces, between, hgroup, hne, hown, ?_, rfl⟩
          intro next hnext
          apply hafter next
          rw [Option.mem_def, List.head?_append, Option.mem_def.mp hnext]
          rfl
    · exact .inr ⟨front, first, pieces, after, hfront, hne, hown, hafter, rfl⟩
  · rintro (⟨before, first, pieces, after, rfl, hne, hown, hafter, rfl⟩ | h)
    · refine ⟨before, first, pieces, after ++ rest, by simp, hne, hown, ?_, rfl⟩
      intro next hnext
      cases after with
      | nil =>
          rw [hrest next hnext]
          exact isOwn_nil
      | cons line after => exact hafter next hnext
    · exact h.append_left group

/-- The headers that lines fold are those that begin at some line. -/
theorem IsFolding.isLogicalHeader_iff {contents headers : List Bytes}
    (h : IsFolding contents headers) : IsLogicalHeader contents header ↔ header ∈ headers := by
  induction h with
  | nil =>
      refine iff_of_false ?_ List.not_mem_nil
      rintro ⟨before, first, pieces, after, heq, _⟩
      cases before <;> cases heq
  | @cons first pieces rest headers hne hown hrest ih =>
      rw [List.mem_cons, ← ih]
      constructor
      · rintro ⟨before, first', pieces', after, heq, hne', hown', hafter, rfl⟩
        cases before with
        | nil =>
            obtain ⟨rfl, hlines⟩ := List.cons.inj heq
            obtain ⟨rfl, _⟩ := continuations_inj hrest.first hafter hlines
            exact .inl rfl
        | cons line before =>
            obtain ⟨_, hlines⟩ := List.cons.inj heq
            obtain ⟨between, hbetween⟩ := exists_of_continuations_eq_own hown' hlines
            exact .inr ⟨between, first', pieces', after, hbetween, hne', hown', hafter, rfl⟩
      · rintro (rfl | hlater)
        · exact ⟨[], first, pieces, rest, rfl, hne, hown, hrest.first, rfl⟩
        · exact hlater.append_left (first :: pieces.map (32 :: ·))

theorem isLaterGroup_append_iff {found : List Bytes} (hgroup : ∀ line ∈ group, line ≠ []) :
    IsLaterGroup (group ++ rest) found ↔ IsLaterGroup rest found := by
  constructor
  · rintro ⟨before, after, heq, hfound⟩
    rcases List.append_eq_append_iff.mp heq.symm with
      ⟨tail, rfl, htail⟩ | ⟨front, _, hfront⟩
    · cases tail with
      | nil => exact ⟨[], after, htail.symm, hfound⟩
      | cons line tail =>
          obtain ⟨rfl, _⟩ := List.cons.inj htail
          exact absurd rfl (hgroup [] (List.mem_append_right before List.mem_cons_self))
    · exact ⟨front, after, hfront, hfound⟩
  · rintro ⟨before, after, rfl, hfound⟩
    exact ⟨group ++ before, after, (List.append_assoc ..).symm, hfound⟩

theorem isLaterGroup_blank_iff {found : List Bytes} (hgroup : ∀ line ∈ group, line ≠ [])
    (hrest : IsBroken rest) :
    IsLaterGroup ([] :: (group ++ rest)) found ↔
      (found = group ∧ group ≠ []) ∨ IsLaterGroup rest found := by
  constructor
  · rintro ⟨before, after, heq, hne, hvisible, hafter⟩
    cases before with
    | nil =>
        obtain ⟨rfl, _⟩ := append_inj_of_isBroken hgroup hvisible hrest hafter
          (List.cons.inj heq).2
        exact .inl ⟨rfl, hne⟩
    | cons line before =>
        apply Or.inr
        rw [← isLaterGroup_append_iff hgroup]
        exact ⟨before, after, (List.cons.inj heq).2, hne, hvisible, hafter⟩
  · rintro (⟨rfl, hne⟩ | hlater)
    · exact ⟨[], rest, rfl, hne, hgroup, hrest⟩
    · obtain ⟨before, after, rfl, hfound⟩ := hlater
      exact ⟨[] :: (group ++ before), after, by simp, hfound⟩

theorem isChain_cons_append_iff {line : Bytes} (hline : line ≠ [])
    (hgroup : ∀ line ∈ group, line ≠ []) (hrest : IsBroken rest) :
    (line :: (group ++ rest)).IsChain MayFollow ↔ ([] :: rest).IsChain MayFollow := by
  induction group generalizing line with
  | nil =>
      cases rest with
      | nil => exact iff_of_true (.singleton line) (.singleton [])
      | cons next rest =>
          obtain rfl : next = [] := hrest next rfl
          rw [List.nil_append, List.isChain_cons_cons, List.isChain_cons_cons]
          exact and_congr_left fun _ => iff_of_true (fun _ => isOwn_nil) (fun _ => isOwn_nil)
  | cons next group ih =>
      obtain ⟨hnext, hgroup⟩ := List.forall_mem_cons.mp hgroup
      rw [List.cons_append, List.isChain_cons_cons, ih hnext hgroup]
      exact and_iff_right fun hblank => absurd hblank hline

theorem isChain_append_iff (hgroup : ∀ line ∈ group, line ≠ []) (hrest : IsBroken rest) :
    ([] :: (group ++ rest)).IsChain MayFollow ↔
      (∀ line ∈ group.head?, IsOwn line) ∧ ([] :: rest).IsChain MayFollow := by
  cases group with
  | nil => exact (and_iff_right (by rintro line ⟨⟩)).symm
  | cons line group =>
      obtain ⟨hline, hgroup⟩ := List.forall_mem_cons.mp hgroup
      rw [List.cons_append, List.isChain_cons_cons, isChain_cons_append_iff hline hgroup hrest]
      simp [MayFollow]

end Parts

section Groups

variable {group rest : List Bytes}

/-- Lines between blank ones hold headers if the first line does not continue another
and every header is legal. -/
theorem exists_isGroup_iff (hgroup : ∀ line ∈ group, line ≠ []) :
    (∃ attributes, IsGroup group attributes) ↔
      (∀ line ∈ group.head?, IsOwn line) ∧
        ∀ header, IsLogicalHeader group header → ∃ a, IsHeader header a := by
  constructor
  · rintro ⟨attributes, headers, hfolding, hheaders⟩
    refine ⟨hfolding.first, fun header hheader => ?_⟩
    obtain ⟨a, _, ha⟩ := exists_of_forall₂_left hheaders (hfolding.isLogicalHeader_iff.mp hheader)
    exact ⟨a, ha⟩
  · rintro ⟨hfirst, hlegal⟩
    have hfolding := isFolding_unfold hgroup hfirst
    have hok : ∀ bytes ∈ (unfold group).2, ∃ a, header bytes = .ok a := by
      intro bytes hbytes
      obtain ⟨a, ha⟩ := hlegal bytes (hfolding.isLogicalHeader_iff.mpr hbytes)
      exact ⟨a, header_eq_ok_iff.mpr ha⟩
    obtain ⟨attributes, hattributes⟩ := exists_mapM_eq_ok hok
    refine ⟨attributes, _, hfolding, ?_⟩
    simpa only [mapM_eq_ok_iff, header_eq_ok_iff] using hattributes

theorem IsHeader.unique {header : Bytes} {a a' : Attribute} (h : IsHeader header a)
    (h' : IsHeader header a') : a = a' := by
  have hok := header_eq_ok_iff.mpr h
  rw [header_eq_ok_iff.mpr h'] at hok
  exact (Except.ok.inj hok).symm

theorem Attributes.exists_get?_iff {attributes : Attributes} {name : String} :
    (∃ value, attributes.get? name = some value) ↔
      ∃ a ∈ attributes, Text.equalIgnoringCase a.name name = true := by
  rw [← Option.isSome_iff_exists, Attributes.get?, Option.isSome_map, List.find?_isSome]

theorem IsGroup.hasNameHeader_iff {attributes : Attributes} (h : IsGroup group attributes) :
    HasNameHeader group ↔ ∃ name, attributes.get? "Name" = some name := by
  obtain ⟨headers, hfolding, hheaders⟩ := h
  rw [Attributes.exists_get?_iff]
  constructor
  · rintro ⟨header, a, hlogical, ha, hname⟩
    obtain ⟨a', hmem, ha'⟩ :=
      exists_of_forall₂_left hheaders (hfolding.isLogicalHeader_iff.mp hlogical)
    obtain rfl := ha.unique ha'
    exact ⟨a, hmem, hname⟩
  · rintro ⟨a, hmem, hname⟩
    obtain ⟨header, hheader, ha⟩ := exists_of_forall₂_right hheaders hmem
    exact ⟨header, a, hfolding.isLogicalHeader_iff.mpr hheader, ha, hname⟩

theorem isWellFormed_nil : IsWellFormed [] where
  continued := .singleton []
  headers := by
    intro header hheader
    cases IsFolding.nil.isLogicalHeader_iff.mp hheader
  named := by
    rintro found ⟨before, after, heq, _⟩
    cases before <;> cases heq

/-- Lines are well-formed if the lines up to the first blank one hold headers, and the
others are well-formed. -/
theorem isWellFormed_append_iff (hgroup : ∀ line ∈ group, line ≠ []) (hrest : IsBroken rest) :
    IsWellFormed (group ++ rest) ↔
      (∃ attributes, IsGroup group attributes) ∧ IsWellFormed rest := by
  rw [exists_isGroup_iff hgroup]
  constructor
  · rintro ⟨hcontinued, hheaders, hnamed⟩
    obtain ⟨hfirst, hchain⟩ := (isChain_append_iff hgroup hrest).mp hcontinued
    simp only [isLogicalHeader_append_iff hrest, or_imp, forall_and] at hheaders
    simp only [isLaterGroup_append_iff hgroup] at hnamed
    exact ⟨⟨hfirst, hheaders.1⟩, hchain, hheaders.2, hnamed⟩
  · rintro ⟨⟨hfirst, hlegal⟩, hchain, hheaders, hnamed⟩
    refine ⟨(isChain_append_iff hgroup hrest).mpr ⟨hfirst, hchain⟩, ?_, ?_⟩
    · intro header hheader
      exact ((isLogicalHeader_append_iff hrest).mp hheader).elim (hlegal header) (hheaders header)
    · intro found hfound
      exact hnamed found ((isLaterGroup_append_iff hgroup).mp hfound)

theorem isWellFormed_blank_iff (hgroup : ∀ line ∈ group, line ≠ []) (hrest : IsBroken rest) :
    IsWellFormed ([] :: (group ++ rest)) ↔
      (group ≠ [] → HasNameHeader group) ∧ IsWellFormed (group ++ rest) := by
  have hchain : ([] :: [] :: (group ++ rest)).IsChain MayFollow ↔
      ([] :: (group ++ rest)).IsChain MayFollow := by
    rw [List.isChain_cons_cons]
    exact and_iff_right fun _ => isOwn_nil
  constructor
  · rintro ⟨hcontinued, hheaders, hnamed⟩
    simp only [isLogicalHeader_blank_iff] at hheaders
    simp only [isLaterGroup_blank_iff hgroup hrest] at hnamed
    refine ⟨fun hne => hnamed group (.inl ⟨rfl, hne⟩), hchain.mp hcontinued, hheaders, ?_⟩
    intro found hfound
    exact hnamed found (.inr ((isLaterGroup_append_iff hgroup).mp hfound))
  · rintro ⟨hname, hcontinued, hheaders, hnamed⟩
    refine ⟨hchain.mpr hcontinued, ?_, ?_⟩
    · intro header hheader
      exact hheaders header (isLogicalHeader_blank_iff.mp hheader)
    · intro found hfound
      rcases (isLaterGroup_blank_iff hgroup hrest).mp hfound with ⟨rfl, hne⟩ | hlater
      · exact hname hne
      · exact hnamed found ((isLaterGroup_append_iff hgroup).mpr hlater)

/-- After a blank line, lines with content have to hold a name as well. -/
theorem isWellFormed_later_iff (hgroup : ∀ line ∈ group, line ≠ []) (hrest : IsBroken rest) :
    IsWellFormed ([] :: (group ++ rest)) ↔
      (∃ attributes, IsGroup group attributes ∧
        (group ≠ [] → ∃ name, attributes.get? "Name" = some name)) ∧ IsWellFormed rest := by
  rw [isWellFormed_blank_iff hgroup hrest, isWellFormed_append_iff hgroup hrest, ← and_assoc]
  refine and_congr_left fun _ => ?_
  constructor
  · rintro ⟨hname, attributes, hattributes⟩
    rw [hattributes.hasNameHeader_iff] at hname
    exact ⟨attributes, hattributes, hname⟩
  · rintro ⟨attributes, hattributes, hname⟩
    rw [hattributes.hasNameHeader_iff]
    exact ⟨hname, attributes, hattributes⟩

end Groups

end CpkProvenance.Manifest
