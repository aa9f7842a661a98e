import CpkProvenance.Manifest.Basic
import CpkProvenance.Proofs.Bytes.Utf8
import CpkProvenance.Proofs.Traced
import Mathlib.Data.List.Infix

/-!
# Headers of a block

The bytes of a header spell its name and value in one of two forms. They may be folded:
cut at any bytes into pieces, each but the first of which begins its line with a space.
The attributes of a block are the headers that its lines fold, in order, and a block
whose lines fold no headers is refused.
-/

namespace CpkProvenance.Manifest

section Texts

/-- The texts of a header with the given name and value. The name ends at the first colon
that a space follows. Where there is none, the text may end in a colon. -/
inductive Spells : List Char → List Char → List Char → Prop
  | full {name value : List Char} (nonempty : name ≠ []) (first : ¬ [':', ' '] <:+: name) :
      Spells name value (name ++ ':' :: ' ' :: value)
  | bare {name : List Char} (nonempty : name ≠ []) (none : ¬ [':', ' '] <:+: name ++ [':']) :
      Spells name [] (name ++ [':'])

/-- The bytes are the UTF-8 of a text of the header. -/
def IsHeader (bytes : Bytes) (a : Attribute) : Prop :=
  ∃ text, bytes = Utf8.encode text ∧ Spells a.name.toList a.value.toList text

variable {c : Char} {text name value rest : List Char}

theorem separator_infix_cons_iff :
    [':', ' '] <:+: c :: rest ↔ (c = ':' ∧ rest.head? = some ' ') ∨ [':', ' '] <:+: rest := by
  rw [List.infix_cons_iff, List.cons_prefix_cons, List.singleton_prefix_iff_head?_eq_some]
  rw [eq_comm (a := ':')]

theorem splitHeader?_eq_none_iff : splitHeader? text = none ↔ ¬ [':', ' '] <:+: text := by
  fun_induction splitHeader? text with
  | case1 value =>
      refine iff_of_false (by rintro ⟨⟩) (not_not_intro ?_)
      exact (List.prefix_append [':', ' '] value).isInfix
  | case2 c rest hnot ih =>
      rw [Option.map_eq_none_iff, ih, separator_infix_cons_iff, not_or, and_iff_right]
      rintro ⟨rfl, hspace⟩
      obtain ⟨value, rfl⟩ := List.head?_eq_some_iff.mp hspace
      exact hnot value rfl rfl
  | case3 => exact iff_of_true rfl (by simp)

theorem splitHeader?_eq_some_iff :
    splitHeader? text = some (name, value) ↔
      text = name ++ ':' :: ' ' :: value ∧ ¬ [':', ' '] <:+: name := by
  fun_induction splitHeader? text generalizing name with
  | case1 found =>
      cases name with
      | nil => simp
      | cons c name =>
          refine iff_of_false (by simp) ?_
          rintro ⟨heq, hfirst⟩
          obtain ⟨rfl, hrest⟩ := List.cons.inj heq
          apply hfirst
          rw [separator_infix_cons_iff]
          -- The space after the colon is the next character of the name.
          cases name with
          | nil => simp at hrest
          | cons d name => exact .inl ⟨rfl, congrArg some (List.cons.inj hrest).1.symm⟩
  | case2 c rest hnot ih =>
      cases name with
      | nil =>
          refine iff_of_false (by simp) ?_
          rintro ⟨heq, _⟩
          obtain ⟨rfl, rfl⟩ := List.cons.inj heq
          exact hnot value rfl rfl
      | cons d name =>
          have hmap : (splitHeader? rest).map (fun x => (c :: x.1, x.2)) = some (d :: name, value) ↔
              c = d ∧ splitHeader? rest = some (name, value) := by
            cases splitHeader? rest with
            | none => simp
            | some found => simp [Prod.ext_iff, and_assoc]
          rw [hmap, ih, separator_infix_cons_iff, List.cons_append, List.cons.injEq, and_assoc]
          refine and_congr_right fun hcd => and_congr_right fun hrest => ?_
          -- A separator at the front of the name would be one at the front of the text.
          refine not_congr ⟨.inr, fun h => h.resolve_left ?_⟩
          rintro ⟨rfl, hspace⟩
          obtain ⟨tail, rfl⟩ := List.head?_eq_some_iff.mp hspace
          exact hnot _ hcd hrest
  | case3 => exact iff_of_false (by rintro ⟨⟩) (by simp)

/-- The parts of a text with a name are those that it spells. -/
theorem headerParts?_eq_some_iff :
    headerParts? text = some (name, value) ∧ name ≠ [] ↔ Spells name value text := by
  constructor
  · rintro ⟨h, hne⟩
    rw [headerParts?] at h
    cases hsplit : splitHeader? text with
    | some parts =>
        rw [hsplit] at h
        obtain rfl := Option.some.inj h
        obtain ⟨rfl, hfirst⟩ := splitHeader?_eq_some_iff.mp hsplit
        exact .full hne hfirst
    | none =>
        rw [hsplit] at h
        have hnone := splitHeader?_eq_none_iff.mp hsplit
        simp only at h
        split at h
        · next hlast =>
            obtain ⟨rfl, rfl⟩ : text.dropLast = name ∧ [] = value :=
              Prod.ext_iff.mp (Option.some.inj h)
            have htext := List.dropLast_append_getLast? ':' hlast
            rw [← htext] at hnone
            have hspells := Spells.bare hne hnone
            rw [htext] at hspells
            exact hspells
        · cases h
  · intro h
    rw [headerParts?]
    cases h with
    | full hne hfirst =>
        rw [splitHeader?_eq_some_iff.mpr ⟨rfl, hfirst⟩]
        exact ⟨rfl, hne⟩
    | bare hne hnone =>
        rw [splitHeader?_eq_none_iff.mpr hnone]
        exact ⟨by simp, hne⟩

/-- The headers that are accepted are those with a text of one of the two forms. -/
theorem header_eq_ok_iff {bytes : Bytes} {a : Attribute} :
    header bytes = .ok a ↔ IsHeader bytes a := by
  rw [header, IsHeader]
  constructor
  · intro h
    split at h
    · cases h
    · next text htext =>
        split at h
        · next c name value hparts =>
            obtain rfl := Except.ok.inj h
            refine ⟨text.toList, Utf8.decode?_eq_some_iff.mp htext, ?_⟩
            rw [String.toList_ofList, String.toList_ofList]
            exact headerParts?_eq_some_iff.mp ⟨hparts, List.cons_ne_nil c name⟩
        · cases h
  · rintro ⟨text, rfl, hspells⟩
    obtain ⟨hparts, hne⟩ := headerParts?_eq_some_iff.mpr hspells
    obtain ⟨c, name, hname⟩ := List.exists_cons_of_ne_nil hne
    have hdecode : Utf8.decode? (Utf8.encode text) = some (String.ofList text) := by
      rw [Utf8.decode?_eq_some_iff, String.toList_ofList]
    rw [hname] at hparts
    rw [hdecode]
    simp only [String.toList_ofList, hparts]
    rw [← hname, String.ofList_toList, String.ofList_toList]

end Texts

section Folding

/-- The line does not continue the header before it. -/
def IsOwn (line : Bytes) : Prop :=
  line.head? ≠ some 32

/-- Lines that hold headers, each cut at any bytes into pieces: the first piece begins the
header's first line, and every other piece follows a space at the front of its line. -/
inductive IsFolding : List Bytes → List Bytes → Prop
  | nil : IsFolding [] []
  | cons {first : Bytes} {pieces rest headers : List Bytes} (nonempty : first ≠ [])
      (own : IsOwn first) (others : IsFolding rest headers) :
      IsFolding (first :: (pieces.map (32 :: ·) ++ rest)) ((first ++ pieces.flatten) :: headers)

variable {line : Bytes} {pieces contents headers : List Bytes}

theorem isOwn_nil : IsOwn [] := by
  rintro ⟨⟩

theorem not_isOwn_continuation {text : Bytes} : ¬ IsOwn (32 :: text) :=
  not_not_intro rfl

theorem continued?_eq_none_iff : continued? line = none ↔ IsOwn line := by
  unfold continued? IsOwn
  split
  · simp
  · next hnot =>
      refine iff_of_true rfl fun hspace => ?_
      obtain ⟨text, rfl⟩ := List.head?_eq_some_iff.mp hspace
      exact hnot text rfl

theorem continued?_eq_some_iff {text : Bytes} :
    continued? line = some text ↔ line = 32 :: text := by
  unfold continued?
  split
  · simp [eq_comm]
  · next hnot =>
      refine iff_of_false (by rintro ⟨⟩) fun hline => ?_
      exact hnot text hline

theorem unfold_cons_of_isOwn (h : IsOwn line) :
    unfold (line :: contents) = ([], (line ++ (unfold contents).1) :: (unfold contents).2) := by
  simp only [unfold, continued?_eq_none_iff.mpr h]

theorem unfold_cons_continuation (text : Bytes) :
    unfold ((32 :: text) :: contents) = (text ++ (unfold contents).1, (unfold contents).2) :=
  rfl

theorem unfold_continuations (pieces contents : List Bytes) :
    unfold (pieces.map (32 :: ·) ++ contents) =
      (pieces.flatten ++ (unfold contents).1, (unfold contents).2) := by
  induction pieces with
  | nil => rfl
  | cons piece pieces ih =>
      rw [List.map_cons, List.cons_append, unfold_cons_continuation, ih, List.flatten_cons,
        List.append_assoc]

theorem IsFolding.unfold_eq (h : IsFolding contents headers) : unfold contents = ([], headers) := by
  induction h with
  | nil => rfl
  | cons _ hown _ ih =>
      rw [unfold_cons_of_isOwn hown, unfold_continuations, ih, List.append_nil]

/-- What is unfolded was folded, after lines that continue a header before them. -/
theorem exists_isFolding (hvisible : ∀ line ∈ contents, line ≠ []) :
    ∃ pieces rest : List Bytes, contents = pieces.map (32 :: ·) ++ rest ∧
      (unfold contents).1 = pieces.flatten ∧ IsFolding rest (unfold contents).2 := by
  induction contents with
  | nil => exact ⟨[], [], rfl, rfl, .nil⟩
  | cons line contents ih =>
      obtain ⟨hline, hcontents⟩ := List.forall_mem_cons.mp hvisible
      obtain ⟨pieces, rest, heq, hpieces, hrest⟩ := ih hcontents
      cases hcontinued : continued? line with
      | some text =>
          obtain rfl := continued?_eq_some_iff.mp hcontinued
          refine ⟨text :: pieces, rest, congrArg _ heq, ?_, hrest⟩
          rw [unfold_cons_continuation, hpieces, List.flatten_cons]
      | none =>
          have hown := continued?_eq_none_iff.mp hcontinued
          refine ⟨[], line :: contents, rfl, ?_⟩
          rw [unfold_cons_of_isOwn hown, hpieces]
          refine ⟨rfl, ?_⟩
          nth_rewrite 1 [heq]
          exact .cons hline hown hrest

theorem isFolding_unfold (hvisible : ∀ line ∈ contents, line ≠ [])
    (hfirst : ∀ line ∈ contents.head?, IsOwn line) : IsFolding contents (unfold contents).2 := by
  obtain ⟨pieces, rest, heq, _, hrest⟩ := exists_isFolding hvisible
  cases pieces with
  | nil =>
      rw [List.map_nil, List.nil_append] at heq
      rw [← heq] at hrest
      exact hrest
  | cons piece pieces =>
      rw [heq] at hfirst
      exact absurd (hfirst _ rfl) not_isOwn_continuation

theorem IsFolding.visible (h : IsFolding contents headers) : ∀ line ∈ contents, line ≠ [] := by
  induction h with
  | nil => exact List.forall_mem_nil _
  | cons hne _ _ ih =>
      rw [List.forall_mem_cons, List.forall_mem_append, List.forall_mem_map]
      exact ⟨hne, fun text _ => List.cons_ne_nil 32 text, ih⟩

theorem IsFolding.first (h : IsFolding contents headers) :
    ∀ line ∈ contents.head?, IsOwn line := by
  cases h with
  | nil => rintro line ⟨⟩
  | cons _ hown _ =>
      rintro line ⟨⟩
      exact hown

end Folding

section Groups

/-- The lines of a block that holds the given headers. -/
def IsGroup (contents : List Bytes) (attributes : Attributes) : Prop :=
  ∃ headers, IsFolding contents headers ∧ List.Forall₂ IsHeader headers attributes

variable {contents : List Bytes} {attributes : Attributes}

theorem IsGroup.visible (h : IsGroup contents attributes) : ∀ line ∈ contents, line ≠ [] := by
  obtain ⟨_, hfolding, _⟩ := h
  exact hfolding.visible

theorem visible_contents {body : List Line} (h : ∀ l ∈ body, l.content ≠ []) :
    ∀ line ∈ body.map Line.content, line ≠ [] :=
  List.forall_mem_map.mpr h

/-- A block is accepted if its lines hold headers, and as those headers. -/
theorem Block.attributes_eq_ok_iff {b : Block} (hvisible : ∀ l ∈ b.body, l.content ≠ []) :
    b.attributes = .ok attributes ↔ IsGroup (b.body.map Line.content) attributes := by
  have hlines := visible_contents hvisible
  rw [Block.attributes]
  generalize b.body.map Line.content = contents at hlines ⊢
  split
  · next hcontinued =>
      refine iff_of_false (by rintro ⟨⟩) ?_
      rintro ⟨headers, hfolding, _⟩
      obtain ⟨text, htext⟩ := Option.isSome_iff_exists.mp hcontinued
      obtain ⟨line, hline, hline'⟩ := Option.bind_eq_some_iff.mp htext
      obtain rfl := continued?_eq_some_iff.mp hline'
      exact not_isOwn_continuation (hfolding.first _ hline)
  · next hfirst =>
      have hown : ∀ line ∈ contents.head?, IsOwn line := by
        intro line hline
        apply continued?_eq_none_iff.mp
        rw [Option.not_isSome_iff_eq_none, hline] at hfirst
        exact hfirst
      rw [mapM_eq_ok_iff]
      simp only [header_eq_ok_iff]
      constructor
      · intro h
        exact ⟨_, isFolding_unfold hlines hown, h⟩
      · rintro ⟨headers, hfolding, h⟩
        rw [hfolding.unfold_eq]
        exact h

end Groups

end CpkProvenance.Manifest
