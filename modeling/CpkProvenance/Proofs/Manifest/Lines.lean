import CpkProvenance.Manifest.Line
import Mathlib.Data.List.Basic

/-!
# Lines of a manifest

A byte string is cut into lines in exactly one way: a line has no CR and no LF in it
and is ended by CR LF, by LF or by CR, where a CR that an LF follows does not end a
line on its own. The last line may lack its ending, but is then not blank. Blank lines
cut the lines into blocks, again in exactly one way.
-/

namespace CpkProvenance.Manifest

/-- What ends a line. -/
inductive IsEnding : Bytes → Prop
  | crlf : IsEnding [13, 10]
  | lf : IsEnding [10]
  | cr : IsEnding [13]

/-- Neither CR nor LF occurs. -/
def IsUnbroken (content : Bytes) : Prop :=
  ∀ b ∈ content, b ≠ 13 ∧ b ≠ 10

/-- The lines of a byte string. A line feed after a carriage return belongs to it. -/
inductive IsCut : Bytes → List Line → Prop
  | nil : IsCut [] []
  | last {content : Bytes} (nonempty : content ≠ []) (unbroken : IsUnbroken content) :
      IsCut content [⟨content, []⟩]
  | cons {content ending rest : Bytes} {ls : List Line} (unbroken : IsUnbroken content)
      (isEnding : IsEnding ending) (whole : ending = [13] → rest.head? ≠ some 10)
      (others : IsCut rest ls) : IsCut (content ++ (ending ++ rest)) (⟨content, ending⟩ :: ls)

section Cut

variable {b : UInt8} {content ending rest raw : Bytes} {ls : List Line}

theorem isUnbroken_nil : IsUnbroken [] :=
  List.forall_mem_nil _

theorem isUnbroken_cons : IsUnbroken (b :: rest) ↔ (b ≠ 13 ∧ b ≠ 10) ∧ IsUnbroken rest :=
  List.forall_mem_cons

theorem lines_cons (h : b ≠ 13 ∧ b ≠ 10) : lines (b :: rest) = Line.prepend b (lines rest) := by
  have hb : ¬ (b = 13 ∨ b = 10) := not_or.mpr h
  rw [lines, if_neg hb]
  intro tail hcr
  exact absurd hcr h.1

theorem lines_ending (hending : IsEnding ending) (hwhole : ending = [13] → rest.head? ≠ some 10) :
    lines (ending ++ rest) = ⟨[], ending⟩ :: lines rest := by
  cases hending with
  | crlf => rfl
  | lf => rfl
  | cr =>
      have hnext := hwhole rfl
      rw [List.singleton_append, lines, if_pos (.inl rfl)]
      rintro tail _ rfl
      exact hnext rfl

theorem lines_last (hne : content ≠ []) (h : IsUnbroken content) :
    lines content = [⟨content, []⟩] := by
  induction content with
  | nil => exact absurd rfl hne
  | cons b content ih =>
      obtain ⟨hb, hcontent⟩ := isUnbroken_cons.mp h
      rw [lines_cons hb]
      cases content with
      | nil => rfl
      | cons c content => rw [ih (List.cons_ne_nil _ _) hcontent, Line.prepend]

theorem lines_append (h : IsUnbroken content) {tail : Bytes} {l : Line}
    (htail : lines tail = l :: ls) :
    lines (content ++ tail) = ⟨content ++ l.content, l.ending⟩ :: ls := by
  induction content with
  | nil => exact htail
  | cons b content ih =>
      obtain ⟨hb, hcontent⟩ := isUnbroken_cons.mp h
      rw [List.cons_append, lines_cons hb, ih hcontent]
      rfl

theorem IsCut.eq_lines (h : IsCut raw ls) : ls = lines raw := by
  induction h with
  | nil => rfl
  | last hne hunbroken => exact (lines_last hne hunbroken).symm
  | cons hunbroken hending hwhole _ ih =>
      rw [lines_append hunbroken (lines_ending hending hwhole), List.append_nil, ih]

theorem IsCut.prepend (hb : b ≠ 13 ∧ b ≠ 10) (h : IsCut rest ls) :
    IsCut (b :: rest) (Line.prepend b ls) := by
  cases h with
  | nil => exact .last (List.cons_ne_nil b []) (isUnbroken_cons.mpr ⟨hb, isUnbroken_nil⟩)
  | last hne hunbroken =>
      exact .last (List.cons_ne_nil b _) (isUnbroken_cons.mpr ⟨hb, hunbroken⟩)
  | cons hunbroken hending hwhole hothers =>
      exact .cons (isUnbroken_cons.mpr ⟨hb, hunbroken⟩) hending hwhole hothers

theorem isCut_lines (raw : Bytes) : IsCut raw (lines raw) := by
  fun_induction lines raw with
  | case1 => exact .nil
  | case2 rest ih => exact .cons isUnbroken_nil .crlf (by simp) ih
  | case3 b rest hnot hb ih =>
      have hending : IsEnding [b] := by
        rcases hb with rfl | rfl
        · exact .cr
        · exact .lf
      refine .cons isUnbroken_nil hending ?_ ih
      -- A carriage return that a line feed follows is the case before this one.
      intro hcr hnext
      obtain rfl := List.singleton_inj.mp hcr
      obtain ⟨tail, rfl⟩ := List.head?_eq_some_iff.mp hnext
      exact hnot tail rfl rfl
  | case4 b rest _ hb ih => exact ih.prepend (not_or.mp hb)

theorem IsCut.unbroken (h : IsCut raw ls) : ∀ l ∈ ls, IsUnbroken l.content := by
  induction h with
  | nil => exact List.forall_mem_nil _
  | last _ hunbroken => exact List.forall_mem_singleton.mpr hunbroken
  | cons hunbroken _ _ _ ih => exact List.forall_mem_cons.mpr ⟨hunbroken, ih⟩

/-- All contents without line breaks are those of the lines of some byte string. -/
theorem exists_isCut_iff {contents : List Bytes} :
    (∃ raw ls, IsCut raw ls ∧ ls.map Line.content = contents) ↔
      ∀ content ∈ contents, IsUnbroken content := by
  constructor
  · rintro ⟨raw, ls, hcut, rfl⟩
    exact List.forall_mem_map.mpr hcut.unbroken
  · intro h
    induction contents with
    | nil => exact ⟨[], [], .nil, rfl⟩
    | cons content contents ih =>
        obtain ⟨hcontent, hcontents⟩ := List.forall_mem_cons.mp h
        obtain ⟨raw, ls, hcut, rfl⟩ := ih hcontents
        exact ⟨_, _, .cons hcontent .lf (by rintro ⟨⟩) hcut, rfl⟩

/-- There is one way to cut a byte string into lines. -/
theorem isCut_iff : IsCut raw ls ↔ ls = lines raw := by
  constructor
  · exact IsCut.eq_lines
  · rintro rfl
    exact isCut_lines raw

end Cut

section Parts

variable {raw : Bytes} {ls xs ys : List Line} {l : Line}

/-- Lines keep every byte. -/
theorem IsCut.flatMap_bytes (h : IsCut raw ls) : ls.flatMap Line.bytes = raw := by
  induction h with
  | nil => rfl
  | last _ _ => simp [Line.bytes]
  | cons _ _ _ _ ih => rw [List.flatMap_cons, ih, Line.bytes, List.append_assoc]

/-- Wherever lines are parted, both parts are the lines of their own bytes. -/
theorem IsCut.of_append (h : IsCut raw (xs ++ ys)) :
    IsCut (xs.flatMap Line.bytes) xs ∧ IsCut (ys.flatMap Line.bytes) ys := by
  induction xs generalizing raw with
  | nil =>
      have hall := h.flatMap_bytes
      rw [List.nil_append] at h hall
      exact ⟨.nil, hall ▸ h⟩
  | cons l xs ih =>
      rw [List.cons_append] at h
      generalize hls : l :: (xs ++ ys) = ls at h
      cases h with
      | nil => cases hls
      | last hne hunbroken =>
          obtain ⟨rfl, hnil⟩ := List.cons.inj hls
          obtain ⟨rfl, rfl⟩ := List.append_eq_nil_iff.mp hnil
          refine ⟨?_, .nil⟩
          rw [(IsCut.last hne hunbroken).flatMap_bytes]
          exact .last hne hunbroken
      | cons hunbroken hending hwhole hothers =>
          obtain ⟨rfl, rfl⟩ := List.cons.inj hls
          obtain ⟨hxs, hys⟩ := ih hothers
          refine ⟨?_, hys⟩
          rw [List.flatMap_cons, Line.bytes, List.append_assoc]
          refine .cons hunbroken hending (fun hcr hnext => hwhole hcr ?_) hxs
          -- What follows in the part follows in the whole.
          rw [← hothers.flatMap_bytes, List.flatMap_append, List.head?_append, hnext]
          rfl

/-- A line has an ending if it is blank, and if it is not the last one. -/
theorem IsCut.isEnding (h : IsCut raw (xs ++ l :: ys)) (hl : l.content = [] ∨ ys ≠ []) :
    IsEnding l.ending := by
  have hback := h.of_append.2
  generalize (l :: ys).flatMap Line.bytes = back at hback
  generalize hls : l :: ys = ls at hback
  cases hback with
  | nil => cases hls
  | last hne _ =>
      obtain ⟨rfl, rfl⟩ := List.cons.inj hls
      rcases hl with hblank | hmore
      · exact absurd hblank hne
      · exact absurd rfl hmore
  | cons _ hending _ _ =>
      obtain ⟨rfl, _⟩ := List.cons.inj hls
      exact hending

/-- Lines with endings may be put before other lines, unless a line feed would then
belong to the carriage return before it. -/
theorem IsCut.append {front back : Bytes} (hxs : IsCut front xs) (hys : IsCut back ys)
    (hendings : ∀ l ∈ xs, IsEnding l.ending) (hback : back.head? ≠ some 10) :
    IsCut (front ++ back) (xs ++ ys) := by
  induction hxs with
  | nil => exact hys
  | last _ _ => cases hendings _ List.mem_cons_self
  | @cons content ending rest ls hunbroken hending hwhole _ ih =>
      have hrest := ih (List.forall_mem_cons.mp hendings).2
      rw [List.append_assoc, List.append_assoc, List.cons_append]
      refine .cons hunbroken hending (fun hcr => ?_) hrest
      cases rest with
      | nil => exact hback
      | cons b rest => exact hwhole hcr

end Parts

section Blocks

/-- Lines cut into blocks: runs of lines with content, each up to the blank line that ends it.
Only the last block may lack that line, but it then has some content. -/
inductive IsBlocked : List Line → List Block → Prop
  | nil : IsBlocked [] []
  | last {body : List Line} (nonempty : body ≠ []) (visible : ∀ l ∈ body, l.content ≠ []) :
      IsBlocked body [⟨body, none⟩]
  | cons {body rest : List Line} {l : Line} {bs : List Block}
      (visible : ∀ l ∈ body, l.content ≠ []) (blank : l.content = [])
      (others : IsBlocked rest bs) : IsBlocked (body ++ l :: rest) (⟨body, some l⟩ :: bs)

/-- The lines of a block, with the blank line that ends it. -/
def Block.lines (b : Block) : List Line :=
  b.body ++ b.blank.toList

/-- Only the line that ends a block is blank. -/
structure Block.IsProper (b : Block) : Prop where
  visible : ∀ l ∈ b.body, l.content ≠ []
  blank : ∀ l ∈ b.blank, l.content = []

variable {b : Block} {l : Line} {body ls : List Line} {bs : List Block}

theorem IsBlocked.prepend (hl : l.content ≠ []) (h : IsBlocked ls bs) :
    IsBlocked (l :: ls) (Block.prepend l bs) := by
  cases h with
  | nil => exact .last (List.cons_ne_nil l []) (List.forall_mem_singleton.mpr hl)
  | last hne hvisible =>
      exact .last (List.cons_ne_nil l _) (List.forall_mem_cons.mpr ⟨hl, hvisible⟩)
  | cons hvisible hblank hothers =>
      exact .cons (List.forall_mem_cons.mpr ⟨hl, hvisible⟩) hblank hothers

theorem isBlocked_blocks (ls : List Line) : IsBlocked ls (blocks ls) := by
  induction ls with
  | nil => exact .nil
  | cons l ls ih =>
      rw [blocks]
      split
      · next hblank => exact .cons (List.forall_mem_nil _) hblank ih
      · next hvisible => exact ih.prepend hvisible

theorem IsBlocked.eq_nil (h : IsBlocked ls []) : ls = [] := by
  cases h
  rfl

theorem Block.flatMap_bytes_lines (b : Block) : b.lines.flatMap Line.bytes = b.bytes := by
  obtain ⟨body, blank⟩ := b
  cases blank <;> simp [Block.lines, Block.bytes]

theorem IsBlocked.flatMap_lines (h : IsBlocked ls bs) : bs.flatMap Block.lines = ls := by
  induction h with
  | nil => rfl
  | last _ _ => simp [Block.lines]
  | cons _ _ _ ih => simp [Block.lines, ih]

theorem IsBlocked.isProper (h : IsBlocked ls bs) : ∀ b ∈ bs, b.IsProper := by
  induction h with
  | nil => exact List.forall_mem_nil _
  | last _ hvisible =>
      refine List.forall_mem_singleton.mpr ⟨hvisible, ?_⟩
      rintro l ⟨⟩
  | cons hvisible hblank _ ih =>
      refine List.forall_mem_cons.mpr ⟨⟨hvisible, ?_⟩, ih⟩
      rintro l ⟨⟩
      exact hblank

theorem blocks_of_visible (hne : body ≠ []) (hbody : ∀ l ∈ body, l.content ≠ []) :
    blocks body = [⟨body, none⟩] := by
  induction body with
  | nil => exact absurd rfl hne
  | cons l body ih =>
      obtain ⟨hl, hbody⟩ := List.forall_mem_cons.mp hbody
      rw [blocks, if_neg hl]
      cases body with
      | nil => rfl
      | cons next body =>
          rw [ih (List.cons_ne_nil _ _) hbody]
          rfl

theorem blocks_append_blank (hbody : ∀ l ∈ body, l.content ≠ []) (hl : l.content = [])
    (rest : List Line) : blocks (body ++ l :: rest) = ⟨body, some l⟩ :: blocks rest := by
  induction body with
  | nil => rw [List.nil_append, blocks, if_pos hl]
  | cons first body ih =>
      obtain ⟨hfirst, hbody⟩ := List.forall_mem_cons.mp hbody
      rw [List.cons_append, blocks, if_neg hfirst, ih hbody]
      rfl

/-- There is one way to cut lines into blocks. -/
theorem IsBlocked.eq_blocks (h : IsBlocked ls bs) : bs = blocks ls := by
  induction h with
  | nil => rfl
  | last hne hvisible => exact (blocks_of_visible hne hvisible).symm
  | cons hvisible hblank _ ih => rw [blocks_append_blank hvisible hblank, ih]

/-- A block with content stands on its own. -/
theorem Block.IsProper.isBlocked (h : b.IsProper) (hbody : b.body ≠ []) :
    IsBlocked b.lines [b] := by
  obtain ⟨body, blank⟩ := b
  cases blank with
  | none =>
      rw [Block.lines, Option.toList_none, List.append_nil]
      exact .last hbody h.visible
  | some l => exact .cons h.visible (h.blank l rfl) .nil

end Blocks

end CpkProvenance.Manifest
