/-!
# Ordered sets

Finite sets of an ordered type, kept as strictly increasing lists. Two sets are
equal exactly when their lists are, and sets are themselves ordered
lexicographically, so that sets of sets can be formed.
-/

namespace CpkProvenance

open Std

variable {α : Type} [Ord α]

/-- Puts an element into its place, unless an equal one stands there. -/
def insertSorted (a : α) : List α → List α
  | [] => [a]
  | b :: rest =>
      match compare a b with
      | .lt => a :: b :: rest
      | .eq => b :: rest
      | .gt => b :: insertSorted a rest

/-- An inserted element is the only new one. -/
theorem mem_insertSorted {a x : α} {xs : List α} (h : x ∈ insertSorted a xs) :
    x = a ∨ x ∈ xs := by
  induction xs with
  | nil => exact Or.inl (List.mem_singleton.mp h)
  | cons b rest ih =>
      simp only [insertSorted] at h
      split at h
      · exact List.mem_cons.mp h
      · exact Or.inr h
      · rcases List.mem_cons.mp h with rfl | h
        · exact Or.inr List.mem_cons_self
        · exact (ih h).imp id (List.mem_cons_of_mem b)

theorem pairwise_insertSorted [TransOrd α] (a : α) {xs : List α}
    (h : xs.Pairwise fun x y => compare x y = .lt) :
    (insertSorted a xs).Pairwise fun x y => compare x y = .lt := by
  induction xs with
  | nil => simp [insertSorted]
  | cons b rest ih =>
      obtain ⟨hb, hrest⟩ := List.pairwise_cons.mp h
      simp only [insertSorted]
      split
      · next hlt =>
          refine List.pairwise_cons.mpr ⟨fun x hx => ?_, h⟩
          rcases List.mem_cons.mp hx with rfl | hx
          · exact hlt
          · exact TransCmp.lt_trans hlt (hb x hx)
      · exact h
      · next hgt =>
          refine List.pairwise_cons.mpr ⟨fun x hx => ?_, ih hrest⟩
          rcases mem_insertSorted hx with rfl | hx
          · exact OrientedCmp.lt_of_gt hgt
          · exact hb x hx

structure OrderedSet (α : Type) [Ord α] where
  toList : List α
  sorted : toList.Pairwise fun a b => compare a b = .lt

namespace OrderedSet

theorem ext {s t : OrderedSet α} (h : s.toList = t.toList) : s = t := by
  obtain ⟨xs, _⟩ := s
  obtain ⟨ys, _⟩ := t
  subst h
  rfl

instance [DecidableEq α] : DecidableEq (OrderedSet α) := fun s t =>
  decidable_of_iff (s.toList = t.toList) ⟨ext, congrArg toList⟩

instance : Membership α (OrderedSet α) := ⟨fun s a => a ∈ s.toList⟩

instance : Ord (OrderedSet α) := ⟨compareOn toList⟩

instance [TransOrd α] : TransOrd (OrderedSet α) :=
  inferInstanceAs (TransCmp (compareOn toList))

instance [LawfulEqOrd α] : LawfulEqOrd (OrderedSet α) where
  compare_self {s} := show compare s.toList s.toList = .eq from ReflCmp.compare_self
  eq_of_compare {s t} h :=
    ext (LawfulEqCmp.eq_of_compare (show compare s.toList t.toList = .eq from h))

def empty : OrderedSet α := ⟨[], List.Pairwise.nil⟩

def size (s : OrderedSet α) : Nat := s.toList.length

def isEmpty (s : OrderedSet α) : Bool := s.toList.isEmpty

def insert [TransOrd α] (s : OrderedSet α) (a : α) : OrderedSet α :=
  ⟨insertSorted a s.toList, pairwise_insertSorted a s.sorted⟩

def ofList [TransOrd α] (xs : List α) : OrderedSet α :=
  xs.foldl insert empty

end OrderedSet

end CpkProvenance
