import CpkProvenance.OrderedSet

/-!
# Ordered sets as sets

A list and the ordered set made of it have the same members, and two ordered
sets with the same members are equal. So the order and the number of insertions
do not show.
-/

namespace CpkProvenance

open Std

variable {α : Type} [Ord α]

section Lists

theorem mem_insertSorted_self [LawfulEqOrd α] (a : α) (xs : List α) : a ∈ insertSorted a xs := by
  induction xs with
  | nil => exact List.mem_cons_self
  | cons b rest ih =>
      simp only [insertSorted]
      split
      · exact List.mem_cons_self
      · next h =>
          obtain rfl : a = b := LawfulEqCmp.eq_of_compare h
          exact List.mem_cons_self
      · exact List.mem_cons_of_mem b ih

theorem mem_insertSorted_of_mem {a x : α} {xs : List α} (h : x ∈ xs) : x ∈ insertSorted a xs := by
  induction xs with
  | nil => exact absurd h List.not_mem_nil
  | cons b rest ih =>
      simp only [insertSorted]
      split
      · exact List.mem_cons_of_mem a h
      · exact h
      · obtain rfl | h := List.mem_cons.mp h
        · exact List.mem_cons_self
        · exact List.mem_cons_of_mem b (ih h)

theorem mem_insertSorted_iff [LawfulEqOrd α] {a x : α} {xs : List α} :
    x ∈ insertSorted a xs ↔ x = a ∨ x ∈ xs := by
  constructor
  · exact mem_insertSorted
  · rintro (rfl | h)
    · exact mem_insertSorted_self x xs
    · exact mem_insertSorted_of_mem h

theorem ne_of_compare_lt [TransOrd α] {a b : α} (h : compare a b = .lt) : a ≠ b := by
  rintro rfl
  have hself : compare a a = .eq := ReflCmp.compare_self
  rw [hself] at h
  cases h

/-- A strictly increasing list is determined by its members. -/
theorem eq_of_pairwise_of_mem_iff [TransOrd α] {xs ys : List α}
    (hx : xs.Pairwise fun a b => compare a b = .lt)
    (hy : ys.Pairwise fun a b => compare a b = .lt) (h : ∀ a, a ∈ xs ↔ a ∈ ys) : xs = ys := by
  have hperm : xs.Perm ys := by
    refine (List.perm_ext_iff_of_nodup ?_ ?_).mpr h
    · exact hx.imp ne_of_compare_lt
    · exact hy.imp ne_of_compare_lt
  refine hperm.eq_of_pairwise ?_ hx hy
  intro a b _ _ hab hba
  exact absurd rfl (ne_of_compare_lt (TransCmp.lt_trans hab hba))

end Lists

namespace OrderedSet

theorem mem_def {a : α} {s : OrderedSet α} : a ∈ s ↔ a ∈ s.toList := Iff.rfl

@[simp] theorem not_mem_empty (a : α) : ¬ a ∈ (empty : OrderedSet α) := List.not_mem_nil

variable [TransOrd α]

theorem ext_mem {s t : OrderedSet α} (h : ∀ a, a ∈ s ↔ a ∈ t) : s = t :=
  ext (eq_of_pairwise_of_mem_iff s.sorted t.sorted h)

variable [LawfulEqOrd α]

@[simp] theorem mem_insert {s : OrderedSet α} {a x : α} : x ∈ s.insert a ↔ x = a ∨ x ∈ s :=
  mem_insertSorted_iff

theorem mem_foldl_insert {s : OrderedSet α} {xs : List α} {x : α} :
    x ∈ xs.foldl insert s ↔ x ∈ s ∨ x ∈ xs := by
  induction xs generalizing s with
  | nil => simp
  | cons a xs ih => grind [mem_insert]

@[simp] theorem mem_ofList {xs : List α} {x : α} : x ∈ ofList xs ↔ x ∈ xs := by
  rw [ofList, mem_foldl_insert]
  simp

end OrderedSet

end CpkProvenance
