import CpkProvenance.Proofs.Manifest.Grammar

/-!
# Where the parts of a manifest stand

Digests are taken of the main block and of each section as they stand in the file. They
are spans of the file, in order and without overlap: the main block begins the file, every
section begins where its first header does, and each of them ends with the first blank
line from there on, or with the file. Nothing but line breaks is left over.

A section can be taken out: after the main block alone it is read as the same section.
-/

namespace CpkProvenance.Manifest

/-- Positions in a byte string, from the start up to the stop, which is not one of them. -/
structure Span where
  start : Nat
  stop : Nat
  deriving DecidableEq, Repr

instance : Membership Nat Span :=
  ⟨fun r i => r.start ≤ i ∧ i < r.stop⟩

/-- The bytes at the positions of a span. -/
def Span.slice (r : Span) (raw : Bytes) : Bytes :=
  raw.extract r.start r.stop

/-- The lines of a file with the lines of a block among them, and the span of these. The
block begins the file or follows a blank line, and it ends the file if no blank line ends it. -/
structure Block.IsPlaced (b : Block) (raw : Bytes) (before after : List Line) (r : Span) :
    Prop where
  lines : IsCut raw (before ++ (b.lines ++ after))
  start : r.start = (before.flatMap Line.bytes).length
  stop : r.stop = r.start + (b.lines.flatMap Line.bytes).length
  proper : b.IsProper
  first : ∀ l ∈ before.getLast?, l.content = []
  last : b.blank = none → after = []

/-- The span of a block that holds the given headers. Its first line begins the first of
them, and its last line is the first blank one from there on, or else the last of the file. -/
def IsBlockAt (raw : Bytes) (attributes : Attributes) (r : Span) : Prop :=
  ∃ (b : Block) (before after : List Line), b.IsPlaced raw before after r ∧
    IsGroup (b.body.map Line.content) attributes

/-- The span of a section. -/
structure IsSectionAt (raw : Bytes) (s : Section) (r : Span) : Prop where
  block : IsBlockAt raw s.attributes r
  named : s.attributes.get? "Name" = some s.name
  bytes : s.bytes = r.slice raw
  nonempty : r.start < r.stop
  inside : r.stop ≤ raw.length

/-- The spans of all sections, from a position of the file on. -/
structure IsLaidOut (raw : Bytes) (position : Nat) (sections : List Section)
    (spans : List Span) : Prop where
  placed : List.Forall₂ (IsSectionAt raw) sections spans
  follows : ∀ r ∈ spans, position ≤ r.start
  ordered : spans.Pairwise fun r later => r.stop ≤ later.start
  /-- Every byte outside the spans is CR or LF. -/
  breaks : ∀ i byte, raw[i]? = some byte → position ≤ i → (∀ r ∈ spans, i ∉ r) →
    byte = 13 ∨ byte = 10

section Places

variable {raw : Bytes} {b : Block} {before after : List Line} {r : Span}

theorem Block.IsPlaced.raw_eq (h : b.IsPlaced raw before after r) :
    raw = before.flatMap Line.bytes ++ (b.bytes ++ after.flatMap Line.bytes) := by
  rw [← h.lines.flatMap_bytes, List.flatMap_append, List.flatMap_append, b.flatMap_bytes_lines]

theorem Block.IsPlaced.slice_eq (h : b.IsPlaced raw before after r) : r.slice raw = b.bytes := by
  have hstop : r.stop - r.start = b.bytes.length := by
    rw [h.stop, b.flatMap_bytes_lines, Nat.add_sub_cancel_left]
  rw [Span.slice, List.extract_eq_take_drop, hstop, h.start, h.raw_eq, List.drop_left,
    List.take_left]

theorem Block.IsPlaced.stop_le (h : b.IsPlaced raw before after r) : r.stop ≤ raw.length := by
  have hlength := congrArg List.length h.raw_eq
  rw [List.length_append, List.length_append] at hlength
  rw [h.stop, h.start, b.flatMap_bytes_lines]
  omega

/-- A block with content that is read as a section is where the section stands. -/
theorem Block.IsPlaced.isSectionAt (h : b.IsPlaced raw before after r) (hbody : b.body ≠ [])
    {s : Section} (hs : b.toSection = .ok s) : IsSectionAt raw s r := by
  obtain ⟨⟨hattributes, hnamed⟩, hbytes⟩ := Block.toSection_eq_ok_iff.mp hs
  have hgroup := (Block.attributes_eq_ok_iff h.proper.visible).mp hattributes
  refine ⟨⟨b, before, after, h, hgroup⟩, hnamed, hbytes.trans h.slice_eq.symm, ?_, h.stop_le⟩
  obtain ⟨l, body, hl⟩ := List.exists_cons_of_ne_nil hbody
  have hvisible : l.content ≠ [] := h.proper.visible l (hl ▸ List.mem_cons_self)
  have hlength : 0 < l.content.length := List.length_pos_of_ne_nil hvisible
  rw [h.stop, Block.lines, hl, List.cons_append, List.flatMap_cons, Line.bytes]
  simp only [List.length_append]
  omega

end Places

section Layout

variable {raw : Bytes} {position : Nat} {sections : List Section} {spans : List Span}

theorem isLaidOut_nil (h : raw.length ≤ position) : IsLaidOut raw position [] [] where
  placed := .nil
  follows := List.forall_mem_nil _
  ordered := .nil
  breaks := by
    intro i byte hbyte hi _
    obtain ⟨hlt, _⟩ := List.getElem?_eq_some_iff.mp hbyte
    omega

theorem map_slice_eq (h : List.Forall₂ (IsSectionAt raw) sections spans) :
    spans.map (·.slice raw) = sections.map Section.bytes := by
  induction h with
  | nil => rfl
  | cons hs _ ih => rw [List.map_cons, List.map_cons, ih, hs.bytes]

/-- Sections follow a blank line as they follow what is before it. -/
theorem IsLaidOut.of_blank {before after : List Line} {l : Line}
    (hcut : IsCut raw (before ++ l :: after)) (hl : l.content = [])
    (h : IsLaidOut raw ((before ++ [l]).flatMap Line.bytes).length sections spans) :
    IsLaidOut raw (before.flatMap Line.bytes).length sections spans := by
  have hending : IsEnding l.ending := hcut.isEnding (.inl hl)
  have hraw : raw = before.flatMap Line.bytes ++ (l.ending ++ after.flatMap Line.bytes) := by
    rw [← hcut.flatMap_bytes, List.flatMap_append, List.flatMap_cons, Line.bytes, hl,
      List.nil_append]
  have hposition : ((before ++ [l]).flatMap Line.bytes).length =
      (before.flatMap Line.bytes).length + l.ending.length := by
    simp [Line.bytes, hl]
  rw [hposition] at h
  refine ⟨h.placed, fun r hr => ?_, h.ordered, fun i byte hbyte hi houtside => ?_⟩
  · have hstart := h.follows r hr
    omega
  · by_cases hlater : (before.flatMap Line.bytes).length + l.ending.length ≤ i
    · exact h.breaks i byte hbyte hlater houtside
    · -- The byte is one of the line's ending.
      rw [hraw, List.getElem?_append_right hi, List.getElem?_append_left (by omega)] at hbyte
      have hmem : byte ∈ l.ending := List.mem_of_getElem? hbyte
      generalize l.ending = ending at hending hmem
      cases hending <;> simp_all

/-- A section before others. -/
theorem IsLaidOut.cons {s : Section} {r : Span} (hs : IsSectionAt raw s r)
    (h : IsLaidOut raw r.stop sections spans) :
    IsLaidOut raw r.start (s :: sections) (r :: spans) := by
  have hnonempty := hs.nonempty
  refine ⟨.cons hs h.placed, ?_, ?_, ?_⟩
  · refine List.forall_mem_cons.mpr ⟨le_rfl, fun later hlater => ?_⟩
    have hstart := h.follows later hlater
    omega
  · exact List.pairwise_cons.mpr ⟨h.follows, h.ordered⟩
  · intro i byte hbyte hi houtside
    obtain ⟨hnot, houtside⟩ := List.forall_mem_cons.mp houtside
    have hstop : r.stop ≤ i := by
      by_contra hlt
      exact hnot ⟨hi, not_le.mp hlt⟩
    exact h.breaks i byte hbyte hstop houtside

end Layout

section Runs

variable {raw : Bytes} {b first : Block} {before ls : List Line} {bs rest : List Block}
  {sections : List Section}

/-- The span of a block after other lines. -/
def Block.spanAfter (b : Block) (before : List Line) : Span :=
  ⟨(before.flatMap Line.bytes).length,
    (before.flatMap Line.bytes).length + (b.lines.flatMap Line.bytes).length⟩

theorem Block.stop_spanAfter (b : Block) (before : List Line) :
    (b.spanAfter before).stop = ((before ++ b.lines).flatMap Line.bytes).length := by
  rw [List.flatMap_append, List.length_append, Block.spanAfter]

/-- The blocks of the lines after some others are laid out as sections: those without content
hold no bytes but line breaks. -/
theorem IsBlocked.exists_isLaidOut (hblocked : IsBlocked ls bs)
    (hcut : IsCut raw (before ++ ls)) (hbefore : ∀ l ∈ before.getLast?, l.content = [])
    (h : List.Forall₂ (fun b s => b.toSection = .ok s) (bs.filter (·.body ≠ [])) sections) :
    ∃ spans, IsLaidOut raw (before.flatMap Line.bytes).length sections spans := by
  induction hblocked generalizing before sections with
  | nil =>
      cases h
      have hraw := congrArg List.length hcut.flatMap_bytes
      rw [List.append_nil] at hraw
      exact ⟨[], isLaidOut_nil hraw.ge⟩
  | @last body hne hvisible =>
      rw [List.filter_cons_of_pos (by simp [hne]), List.filter_nil] at h
      obtain _ | ⟨hs, ⟨⟩⟩ := h
      have hproper := (IsBlocked.last hne hvisible).isProper _ List.mem_cons_self
      have hlines : Block.lines ⟨body, none⟩ = body := List.append_nil body
      have hplaced : Block.IsPlaced ⟨body, none⟩ raw before []
          (Block.spanAfter ⟨body, none⟩ before) := by
        refine ⟨?_, rfl, rfl, hproper, hbefore, fun _ => rfl⟩
        rw [List.append_nil, hlines]
        exact hcut
      have hend : raw.length ≤ (Block.spanAfter ⟨body, none⟩ before).stop := by
        rw [Block.stop_spanAfter, hlines, hcut.flatMap_bytes]
      exact ⟨_, .cons (hplaced.isSectionAt hne hs) (isLaidOut_nil hend)⟩
  | @cons body rest l bs hvisible hblank hothers ih =>
      have hproper := (IsBlocked.cons hvisible hblank hothers).isProper _ List.mem_cons_self
      have hlines : Block.lines ⟨body, some l⟩ = body ++ [l] := rfl
      have hnext : IsCut raw ((before ++ Block.lines ⟨body, some l⟩) ++ rest) := by
        simpa [hlines] using hcut
      have hlast : ∀ x ∈ (before ++ Block.lines ⟨body, some l⟩).getLast?, x.content = [] := by
        rw [hlines, ← List.append_assoc, List.getLast?_concat]
        rintro x ⟨⟩
        exact hblank
      by_cases hbody : body = []
      · rw [List.filter_cons_of_neg (by simp [hbody])] at h
        obtain ⟨spans, hspans⟩ := ih hnext hlast h
        subst hbody
        exact ⟨spans, hspans.of_blank hcut hblank⟩
      · rw [List.filter_cons_of_pos (by simp [hbody])] at h
        obtain _ | ⟨hs, hrest⟩ := h
        obtain ⟨spans, hspans⟩ := ih hnext hlast hrest
        rw [← Block.stop_spanAfter] at hspans
        have hplaced : Block.IsPlaced ⟨body, some l⟩ raw before rest
            (Block.spanAfter ⟨body, some l⟩ before) := by
          refine ⟨?_, rfl, rfl, hproper, hbefore, by rintro ⟨⟩⟩
          rw [← List.append_assoc]
          exact hnext
        exact ⟨_, .cons (hplaced.isSectionAt hbody hs) hspans⟩

theorem parse_eq_ok_iff_of_blocks {m : Manifest} (h : blocks (lines raw) = first :: rest) :
    parse raw = .ok m ↔ ∃ main sections, first.attributes = .ok main ∧
      List.Forall₂ (fun b s => b.toSection = .ok s) (rest.filter (·.body ≠ [])) sections ∧
      m = ⟨raw, main, first.bytes, sections⟩ := by
  rw [parse, h]
  simp only [bind_eq_ok_iff, mapM_eq_ok_iff]
  constructor
  · rintro ⟨main, hmain, sections, hsections, hm⟩
    exact ⟨main, sections, hmain, hsections, (Except.ok.inj hm).symm⟩
  · rintro ⟨main, sections, hmain, hsections, rfl⟩
    exact ⟨main, hmain, sections, hsections, rfl⟩

/-- The bytes of a block with content begin with content. -/
theorem Block.IsProper.head?_bytes_ne (h : b.IsProper) (hbody : b.body ≠ [])
    (hcut : IsCut raw b.lines) : raw.head? ≠ some 10 := by
  obtain ⟨l, body, hl⟩ := List.exists_cons_of_ne_nil hbody
  have hlines : b.lines = l :: (body ++ b.blank.toList) := by
    rw [Block.lines, hl, List.cons_append]
  have hvisible : l.content ≠ [] := h.visible l (hl ▸ List.mem_cons_self)
  obtain ⟨byte, content, hcontent⟩ := List.exists_cons_of_ne_nil hvisible
  have hunbroken : IsUnbroken l.content := hcut.unbroken l (hlines ▸ List.mem_cons_self)
  rw [hcontent, isUnbroken_cons] at hunbroken
  rw [← hcut.flatMap_bytes, hlines, List.flatMap_cons, Line.bytes, hcontent]
  intro hhead
  exact hunbroken.1.2 (Option.some.inj hhead)

/-- The first block and any later one with content are the blocks of their bytes. -/
theorem IsBlocked.blocks_pair (hblocked : IsBlocked ls (first :: rest)) (hcut : IsCut raw ls)
    (hb : b ∈ rest) (hbody : b.body ≠ []) :
    blocks (lines (first.bytes ++ b.bytes)) = [first, b] := by
  have hproper : b.IsProper := hblocked.isProper b (List.mem_cons_of_mem first hb)
  have hlines : IsBlocked (first.lines ++ b.lines) [first, b] := by
    cases hblocked with
    | last _ _ => cases hb
    | @cons body _ l _ hvisible hblank _ =>
        have hfirst : Block.lines ⟨body, some l⟩ ++ b.lines = body ++ l :: b.lines := by
          simp [Block.lines]
        rw [hfirst]
        exact .cons hvisible hblank (hproper.isBlocked hbody)
  obtain ⟨front, back, rfl⟩ := List.append_of_mem hb
  rw [← hblocked.flatMap_lines, List.flatMap_cons] at hcut
  have hfirst := hcut.of_append.1
  have hrest := hcut.of_append.2
  rw [List.flatMap_append, List.flatMap_cons] at hrest
  have hlater := hrest.of_append.2.of_append.1
  rw [Block.flatMap_bytes_lines] at hfirst hlater
  have hendings : ∀ l ∈ first.lines, IsEnding l.ending := by
    intro l hl
    obtain ⟨xs, ys, hxs⟩ := List.append_of_mem hl
    rw [hxs, List.append_assoc, List.cons_append] at hcut
    refine hcut.isEnding (.inr ?_)
    -- The lines of the later block are there.
    simp [Block.lines, hbody]
  have htogether := hfirst.append hlater hendings (hproper.head?_bytes_ne hbody hlater)
  rw [← htogether.eq_lines, ← hlines.eq_blocks]

/-- The first block begins the file, and the sections follow it. -/
theorem IsBlocked.exists_isLaidOut_main (hblocked : IsBlocked ls (first :: rest))
    (hcut : IsCut raw ls)
    (h : List.Forall₂ (fun b s => b.toSection = .ok s) (rest.filter (·.body ≠ [])) sections) :
    (∃ after, first.IsPlaced raw [] after (first.spanAfter [])) ∧
      ∃ spans, IsLaidOut raw (first.spanAfter []).stop sections spans := by
  have hproper : first.IsProper := hblocked.isProper first List.mem_cons_self
  rw [Block.stop_spanAfter, List.nil_append]
  cases hblocked with
  | last _ _ =>
      cases h
      have hlines : Block.lines ⟨ls, none⟩ = ls := List.append_nil ls
      refine ⟨⟨[], ?_, rfl, rfl, hproper, by rintro l ⟨⟩, fun _ => rfl⟩, [], isLaidOut_nil ?_⟩
      · rw [List.nil_append, List.append_nil, hlines]
        exact hcut
      · rw [hlines, hcut.flatMap_bytes]
  | @cons body others l _ _ hblank hothers =>
      have hlines : IsCut raw (Block.lines ⟨body, some l⟩ ++ others) := by
        simpa [Block.lines] using hcut
      refine ⟨⟨others, hlines, rfl, rfl, hproper, by rintro l ⟨⟩, by rintro ⟨⟩⟩, ?_⟩
      refine hothers.exists_isLaidOut hlines ?_ h
      rw [Block.lines, Option.toList_some, List.getLast?_concat]
      rintro x ⟨⟩
      exact hblank

/-- What parsing has done if it succeeded. -/
theorem parse_cases {m : Manifest} (h : parse raw = .ok m) :
    (raw = [] ∧ m = empty) ∨ ∃ first rest main sections, blocks (lines raw) = first :: rest ∧
      first.attributes = .ok main ∧
      List.Forall₂ (fun b s => b.toSection = .ok s) (rest.filter (·.body ≠ [])) sections ∧
      m = ⟨raw, main, first.bytes, sections⟩ := by
  cases hblocks : blocks (lines raw) with
  | nil =>
      have hblocked := isBlocked_blocks (lines raw)
      have hcut := isCut_lines raw
      rw [hblocks] at hblocked
      rw [hblocked.eq_nil] at hcut
      obtain rfl : [] = raw := hcut.flatMap_bytes
      exact .inl ⟨rfl, (Except.ok.inj h).symm⟩
  | cons first rest =>
      obtain ⟨main, sections, hm⟩ := (parse_eq_ok_iff_of_blocks hblocks).mp h
      exact .inr ⟨first, rest, main, sections, rfl, hm⟩

theorem raw_of_parse {m : Manifest} (h : parse raw = .ok m) : m.raw = raw := by
  rcases parse_cases h with ⟨rfl, rfl⟩ | ⟨_, _, _, _, _, _, _, rfl⟩
  · rfl
  · rfl

theorem isBlockAt_nil : IsBlockAt [] [] ⟨0, 0⟩ := by
  refine ⟨⟨[], none⟩, [], [], ⟨.nil, rfl, rfl, ⟨List.forall_mem_nil _, ?_⟩, ?_, fun _ => rfl⟩, ?_⟩
  · rintro l ⟨⟩
  · rintro l ⟨⟩
  · exact isGroup_nil_iff.mpr rfl

/-- The main block of an accepted file begins it, and the sections follow. -/
theorem exists_isLaidOut_of_parse {m : Manifest} (h : parse raw = .ok m) :
    ∃ main spans, main.start = 0 ∧ main.stop ≤ raw.length ∧ IsBlockAt raw m.main main ∧
      m.mainBytes = main.slice raw ∧ IsLaidOut raw main.stop m.sections spans := by
  rcases parse_cases h with ⟨rfl, rfl⟩ | ⟨first, rest, main, sections, hblocks, hmain, hsections, rfl⟩
  · exact ⟨⟨0, 0⟩, [], rfl, le_rfl, isBlockAt_nil, rfl, isLaidOut_nil le_rfl⟩
  · have hblocked := isBlocked_blocks (lines raw)
    rw [hblocks] at hblocked
    obtain ⟨⟨after, hplaced⟩, spans, hspans⟩ :=
      hblocked.exists_isLaidOut_main (isCut_lines raw) hsections
    have hgroup := (Block.attributes_eq_ok_iff hplaced.proper.visible).mp hmain
    exact ⟨first.spanAfter [], spans, rfl, hplaced.stop_le, ⟨first, [], after, hplaced, hgroup⟩,
      hplaced.slice_eq.symm, hspans⟩

/-- A section of an accepted file is read as itself after the main block. -/
theorem parse_mainBytes_append {m : Manifest} (h : parse raw = .ok m) {s : Section}
    (hs : s ∈ m.sections) :
    parse (m.mainBytes ++ s.bytes) =
      .ok ⟨m.mainBytes ++ s.bytes, m.main, m.mainBytes, [s]⟩ := by
  rcases parse_cases h with ⟨_, rfl⟩ | ⟨first, rest, main, sections, hblocks, hmain, hsections, rfl⟩
  · cases hs
  · obtain ⟨b, hb, hsection⟩ := exists_of_forall₂_right hsections hs
    obtain ⟨hmem, hkept⟩ := List.mem_filter.mp hb
    have hbody : b.body ≠ [] := by simpa using hkept
    have hbytes : s.bytes = b.bytes := (Block.toSection_eq_ok_iff.mp hsection).2
    have hblocked := isBlocked_blocks (lines raw)
    rw [hblocks] at hblocked
    have hpair := hblocked.blocks_pair (isCut_lines raw) hmem hbody
    rw [← hbytes] at hpair
    refine (parse_eq_ok_iff_of_blocks hpair).mpr ⟨main, [s], hmain, ?_, rfl⟩
    rw [List.filter_cons_of_pos (by simp [hbody]), List.filter_nil]
    exact .cons hsection .nil

end Runs

/-- **The parts of a manifest are spans of its file**: the main block at the beginning, then the
sections, each from its first header to the blank line after it, and otherwise line breaks only.
The main block and any one section are a manifest of their own, with the same headers and
the same bytes. -/
theorem spans_of_parse {raw : Bytes} {m : Manifest} (h : parse raw = .ok m) :
    m.raw = raw ∧
    (∃ main spans, main.start = 0 ∧ main.stop ≤ raw.length ∧ IsBlockAt raw m.main main ∧
      m.mainBytes = main.slice raw ∧ IsLaidOut raw main.stop m.sections spans) ∧
    ∀ s ∈ m.sections, parse (m.mainBytes ++ s.bytes) =
      .ok ⟨m.mainBytes ++ s.bytes, m.main, m.mainBytes, [s]⟩ :=
  ⟨raw_of_parse h, exists_isLaidOut_of_parse h, fun _ hs => parse_mainBytes_append h hs⟩

section Sample

/-- A file with all three endings, one blank line too many and no ending of its last line. -/
def sampleFile : Bytes :=
  Utf8.encode "A: b\r\n\r\n\nName: x\rB: c\r\r\nName: y".toList

theorem parts_of_sampleFile :
    (parse sampleFile).toOption.map (fun m => (m.mainBytes, m.sections.map Section.bytes)) =
      some (Utf8.encode "A: b\r\n\r\n".toList,
        [Utf8.encode "Name: x\rB: c\r\r\n".toList, Utf8.encode "Name: y".toList]) := by
  decide +kernel

theorem spans_of_sampleFile :
    ∃ m main spans, parse sampleFile = .ok m ∧ main.start = 0 ∧
      main.slice sampleFile = Utf8.encode "A: b\r\n\r\n".toList ∧
      IsBlockAt sampleFile m.main main ∧ IsLaidOut sampleFile main.stop m.sections spans ∧
      spans.map (·.slice sampleFile) =
        [Utf8.encode "Name: x\rB: c\r\r\n".toList, Utf8.encode "Name: y".toList] ∧
      ∀ s ∈ m.sections, parse (m.mainBytes ++ s.bytes) =
        .ok ⟨m.mainBytes ++ s.bytes, m.main, m.mainBytes, [s]⟩ := by
  obtain ⟨m, hm, hparts⟩ := Option.map_eq_some_iff.mp parts_of_sampleFile
  obtain ⟨hmainBytes, hsections⟩ := Prod.ext_iff.mp hparts
  have hparse := toOption_eq_some_iff.mp hm
  obtain ⟨_, ⟨main, spans, hstart, _, hblock, hmain, hlayout⟩, halone⟩ := spans_of_parse hparse
  refine ⟨m, main, spans, hparse, hstart, hmain.symm.trans hmainBytes, hblock, hlayout, ?_, halone⟩
  exact (map_slice_eq hlayout.placed).trans hsections

end Sample

end CpkProvenance.Manifest
