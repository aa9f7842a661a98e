import CpkProvenance.Text.Cut
import Mathlib.Data.List.TakeWhile

/-!
# Cuts at a mark

A text that was put together at a mark is cut there again: at the first mark if the part
before it has none, at the last mark if the part after it has none, and at all marks if no
part has one. The other way round, the pieces between all marks make up the text, and none of
them has a mark.
-/

namespace CpkProvenance.Text

variable {mark : Char} {front back text : List Char}

theorem cutFirst?_append (h : mark ∉ front) :
    cutFirst? mark (front ++ mark :: back) = some (front, back) := by
  have hfront : ∀ c ∈ front, (c != mark) = true := by
    intro c hc
    rw [bne_iff_ne]
    intro heq
    exact h (heq ▸ hc)
  unfold cutFirst?
  rw [List.dropWhile_append_of_pos hfront, List.takeWhile_append_of_pos hfront]
  simp

theorem cutFirst?_of_not_mem (h : mark ∉ text) : cutFirst? mark text = none := by
  have htext : text.dropWhile (· != mark) = [] := by
    rw [List.dropWhile_eq_nil_iff]
    intro c hc
    rw [bne_iff_ne]
    intro heq
    exact h (heq ▸ hc)
  rw [cutFirst?, htext]

theorem cutLast?_append (h : mark ∉ back) :
    cutLast? mark (front ++ mark :: back) = some (front, back) := by
  have hreverse : (front ++ mark :: back).reverse = back.reverse ++ mark :: front.reverse := by
    simp
  have hback : mark ∉ back.reverse := by
    rw [List.mem_reverse]
    exact h
  rw [cutLast?, hreverse, cutFirst?_append hback]
  simp

theorem cutLast?_of_not_mem (h : mark ∉ text) : cutLast? mark text = none := by
  have hreverse : mark ∉ text.reverse := by
    rw [List.mem_reverse]
    exact h
  rw [cutLast?, cutFirst?_of_not_mem hreverse]
  rfl

theorem splitAll_ne_nil (mark : Char) (text : List Char) : splitAll mark text ≠ [] := by
  cases text with
  | nil => exact List.cons_ne_nil _ _
  | cons c rest =>
      rw [splitAll]
      split
      · exact List.cons_ne_nil _ _
      · split <;> exact List.cons_ne_nil _ _

/-- A text that is put together at a mark falls apart there. -/
theorem splitAll_append_cons (mark : Char) (front back : List Char) :
    splitAll mark (front ++ mark :: back) = splitAll mark front ++ splitAll mark back := by
  induction front with
  | nil => simp [splitAll]
  | cons c front ih =>
      rw [List.cons_append, splitAll, splitAll, ih]
      split
      · rfl
      · cases h : splitAll mark front with
        | nil => exact absurd h (splitAll_ne_nil mark front)
        | cons first others => rfl

section Pieces

variable {piece first : List Char} {before after others : List (List Char)}

/-- A text is its pieces with a mark between any two. -/
theorem eq_of_splitAll (h : splitAll mark text = first :: others) :
    text = first ++ others.flatMap (mark :: ·) := by
  induction text generalizing first others with
  | nil =>
      obtain ⟨rfl, rfl⟩ := List.cons.inj h
      rfl
  | cons c rest ih =>
      cases hrest : splitAll mark rest with
      | nil => exact absurd hrest (splitAll_ne_nil mark rest)
      | cons next others' =>
          rw [splitAll, hrest] at h
          split at h
          · next hc =>
              obtain ⟨rfl, rfl⟩ := List.cons.inj h
              rw [List.nil_append, List.flatMap_cons, List.cons_append, ← ih hrest, hc]
          · obtain ⟨rfl, rfl⟩ := List.cons.inj h
            rw [List.cons_append, ← ih hrest]

/-- The marks may be counted to the pieces before them instead of those after them. -/
theorem append_flatMap_mark (first : List Char) :
    first ++ (before ++ piece :: after).flatMap (mark :: ·) =
      (first :: before).flatMap (· ++ [mark]) ++ (piece ++ after.flatMap (mark :: ·)) := by
  induction before generalizing first with
  | nil => simp
  | cons next before ih =>
      rw [List.cons_append, List.flatMap_cons, List.cons_append, ih next, List.flatMap_cons]
      simp

/-- A text around one of its pieces. -/
theorem eq_of_splitAll_append (h : splitAll mark text = before ++ piece :: after) :
    text = before.flatMap (· ++ [mark]) ++ (piece ++ after.flatMap (mark :: ·)) := by
  cases before with
  | nil => exact eq_of_splitAll h
  | cons first before => exact (eq_of_splitAll h).trans (append_flatMap_mark first)

theorem not_mem_of_mem_splitAll (h : piece ∈ splitAll mark text) : mark ∉ piece := by
  induction text generalizing piece with
  | nil =>
      rw [List.mem_singleton.mp h]
      exact List.not_mem_nil
  | cons c rest ih =>
      cases hrest : splitAll mark rest with
      | nil => exact absurd hrest (splitAll_ne_nil mark rest)
      | cons next others =>
          rw [hrest] at ih
          rw [splitAll, hrest] at h
          split at h
          · obtain rfl | h := List.mem_cons.mp h
            · exact List.not_mem_nil
            · exact ih h
          · next hc =>
              obtain rfl | h := List.mem_cons.mp h
              · exact List.not_mem_cons_of_ne_of_not_mem (Ne.symm hc) (ih List.mem_cons_self)
              · exact ih (List.mem_cons_of_mem next h)

theorem splitAll_of_not_mem (h : mark ∉ text) : splitAll mark text = [text] := by
  induction text with
  | nil => rfl
  | cons c rest ih =>
      rw [List.mem_cons, not_or] at h
      rw [splitAll, if_neg (Ne.symm h.1), ih h.2]

/-- Pieces with a mark between any two are the pieces of the whole. -/
theorem splitAll_append_flatMap (hfirst : mark ∉ first)
    (hothers : ∀ piece ∈ others, mark ∉ piece) :
    splitAll mark (first ++ others.flatMap (mark :: ·)) = first :: others := by
  induction others generalizing first with
  | nil => rw [List.flatMap_nil, List.append_nil, splitAll_of_not_mem hfirst]
  | cons next others ih =>
      rw [List.forall_mem_cons] at hothers
      rw [List.flatMap_cons, List.cons_append, splitAll_append_cons, splitAll_of_not_mem hfirst,
        ih hothers.1 hothers.2, List.singleton_append]

end Pieces

end CpkProvenance.Text
