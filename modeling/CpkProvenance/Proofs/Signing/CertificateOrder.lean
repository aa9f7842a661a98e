import CpkProvenance.Proofs.OrderedSet
import CpkProvenance.Signing.SignerSet
import Mathlib.Data.List.Nodup

/-!
# The order of certificates

Certificates are compared by the lengths of their encodings, and encodings of one
length at the first place where they differ, the bytes being read as signed numbers.
Of two encodings of one length neither is the beginning of the other, so this is a
total order, and a set of certificates has one listing however it was collected.
Signer sets are compared by the first difference of their listings, and a listing comes
before those that go on after it. This is a total order again, by which the sets of a
profile are listed.
-/

namespace CpkProvenance

open Std

section Comparison

/-- A comparison that puts all elements into one order, in which only equal elements
share a place. -/
structure IsTotalOrder {α : Type} (cmp : α → α → Ordering) : Prop where
  swap (a b : α) : cmp a b = (cmp b a).swap
  trans (a b c : α) : cmp a b = .lt → cmp b c = .lt → cmp a c = .lt
  eq_iff (a b : α) : cmp a b = .eq ↔ a = b

variable {α β : Type}

theorem isTotalOrder_compare [Ord α] [TransOrd α] [LawfulEqOrd α] :
    IsTotalOrder (compare : α → α → Ordering) where
  swap _ _ := OrientedCmp.eq_swap
  trans _ _ _ := TransCmp.lt_trans
  eq_iff _ _ := LawfulEqCmp.compare_eq_iff_eq

/-- Two lists agree up to a place at which their elements are in the given relation. -/
def FirstDiffer (r : α → α → Prop) (xs ys : List α) : Prop :=
  ∃ front x y restX restY, xs = front ++ x :: restX ∧ ys = front ++ y :: restY ∧ r x y

theorem not_firstDiffer_nil_left (r : α → α → Prop) (ys : List α) : ¬ FirstDiffer r [] ys := by
  rintro ⟨front, x, _, restX, _, h, _⟩
  cases front <;> cases h

theorem not_firstDiffer_nil_right (r : α → α → Prop) (xs : List α) : ¬ FirstDiffer r xs [] := by
  rintro ⟨front, _, y, _, restY, _, h, _⟩
  cases front <;> cases h

theorem firstDiffer_cons_cons {r : α → α → Prop} {x y : α} {xs ys : List α} :
    FirstDiffer r (x :: xs) (y :: ys) ↔ r x y ∨ x = y ∧ FirstDiffer r xs ys := by
  constructor
  · rintro ⟨front, a, b, restX, restY, hx, hy, hr⟩
    cases front with
    | nil =>
        obtain ⟨rfl, rfl⟩ := List.cons.inj hx
        obtain ⟨rfl, rfl⟩ := List.cons.inj hy
        exact .inl hr
    | cons c front =>
        obtain ⟨rfl, hxs⟩ := List.cons.inj hx
        obtain ⟨rfl, hys⟩ := List.cons.inj hy
        exact .inr ⟨rfl, front, a, b, restX, restY, hxs, hys, hr⟩
  · rintro (hr | ⟨rfl, front, a, b, restX, restY, rfl, rfl, hr⟩)
    · exact ⟨[], x, y, xs, ys, rfl, rfl, hr⟩
    · exact ⟨x :: front, a, b, restX, restY, rfl, rfl, hr⟩

theorem firstDiffer_map {r : β → β → Prop} {f : α → β} (hf : Function.Injective f)
    {xs ys : List α} :
    FirstDiffer r (xs.map f) (ys.map f) ↔ FirstDiffer (fun x y => r (f x) (f y)) xs ys := by
  induction xs generalizing ys with
  | nil => exact iff_of_false (not_firstDiffer_nil_left _ _) (not_firstDiffer_nil_left _ _)
  | cons x xs ih =>
      cases ys with
      | nil => exact iff_of_false (not_firstDiffer_nil_right _ _) (not_firstDiffer_nil_right _ _)
      | cons y ys =>
          rw [List.map_cons, List.map_cons, firstDiffer_cons_cons, firstDiffer_cons_cons, ih,
            hf.eq_iff]

/-- Of two lists of one length neither goes on after the other ends. -/
theorem lex_iff_firstDiffer {r : α → α → Prop} {xs ys : List α} (h : xs.length = ys.length) :
    List.Lex r xs ys ↔ FirstDiffer r xs ys := by
  induction xs generalizing ys with
  | nil =>
      obtain rfl : ys = [] := List.length_eq_zero_iff.mp h.symm
      exact iff_of_false List.not_lex_nil (not_firstDiffer_nil_left _ _)
  | cons x xs ih =>
      cases ys with
      | nil => cases h
      | cons y ys =>
          rw [List.cons_lex_cons_iff, firstDiffer_cons_cons, ih (Nat.succ.inj h)]

theorem compare_list_eq_lt_iff [Ord α] [LawfulEqOrd α] {xs ys : List α} :
    compare xs ys = .lt ↔ List.Lex (fun x y => compare x y = .lt) xs ys := by
  induction xs generalizing ys with
  | nil =>
      cases ys with
      | nil => exact iff_of_false (by rintro ⟨⟩) List.not_lex_nil
      | cons y ys => exact iff_of_true List.compare_nil_cons .nil
  | cons x xs ih =>
      cases ys with
      | nil => exact iff_of_false (by rintro ⟨⟩) List.not_lex_nil
      | cons y ys =>
          rw [List.compare_cons_cons, Ordering.then_eq_lt, ih, List.cons_lex_cons_iff,
            LawfulEqCmp.compare_eq_iff_eq]

end Comparison

namespace Certificate

theorem encoded_injective : Function.Injective encoded := fun _ _ h => ext h

theorem toInt8_injective : Function.Injective UInt8.toInt8 :=
  fun _ _ h => congrArg Int8.toUInt8 h

/-- Encodings are compared by length, and then at the first byte that differs. -/
theorem compare_eq_lt_iff {a b : Certificate} :
    compare a b = .lt ↔ a.encoded.length < b.encoded.length ∨
      a.encoded.length = b.encoded.length ∧
        FirstDiffer (fun x y => x.toInt8 < y.toInt8) a.encoded b.encoded := by
  have hcompare : compare a b = (compare a.encoded.length b.encoded.length).then
      (compare a.signedBytes b.signedBytes) := rfl
  rw [hcompare, Ordering.then_eq_lt, Nat.compare_eq_lt, Nat.compare_eq_eq, compare_list_eq_lt_iff]
  refine or_congr_right (and_congr_right fun hlength => ?_)
  have hsigned : a.signedBytes.length = b.signedBytes.length := by
    simpa only [signedBytes, List.length_map] using hlength
  rw [lex_iff_firstDiffer hsigned, signedBytes, signedBytes, firstDiffer_map toInt8_injective]
  simp only [compare_eq_lt]

theorem compare_eq_eq_iff {a b : Certificate} : compare a b = .eq ↔ a.encoded = b.encoded := by
  rw [LawfulEqCmp.compare_eq_iff_eq, encoded_injective.eq_iff]

theorem forall_mem_map_encoded_iff {xs ys : List Certificate} :
    (∀ e, e ∈ xs.map encoded ↔ e ∈ ys.map encoded) ↔ ∀ c, c ∈ xs ↔ c ∈ ys := by
  constructor
  · intro h c
    have hc := h c.encoded
    rwa [List.mem_map_of_injective encoded_injective,
      List.mem_map_of_injective encoded_injective] at hc
  · intro h e
    simp only [List.mem_map, h]

/-- No certificate is followed by a smaller one. -/
def IsAscending (xs : List Certificate) : Prop :=
  xs.Pairwise fun a b => (compare a b).isLE

/-- The certificates of a list in ascending order. -/
def sort (xs : List Certificate) : List Certificate :=
  xs.mergeSort fun a b => (compare a b).isLE

theorem isAscending_sort (xs : List Certificate) : IsAscending (sort xs) := by
  refine List.pairwise_mergeSort (fun a b c hab hbc => ?_) (fun a b => ?_) xs
  · exact TransCmp.isLE_trans hab hbc
  · have hswap : compare b a = (compare a b).swap := OrientedCmp.eq_swap
    rw [hswap]
    cases compare a b <;> rfl

theorem sort_of_isAscending {xs : List Certificate} (h : IsAscending xs) : sort xs = xs :=
  List.mergeSort_of_pairwise h

end Certificate

namespace SignerSet

/-- The listing of the certificates of a list: every encoding once, in strictly increasing
order. -/
structure IsListing (xs listing : List Certificate) : Prop where
  increasing : listing.Pairwise fun a b => compare a b = .lt
  once : (listing.map Certificate.encoded).Nodup
  same (e : Bytes) : e ∈ listing.map Certificate.encoded ↔ e ∈ xs.map Certificate.encoded

theorem isListing_ofList (xs : List Certificate) :
    IsListing xs (OrderedSet.ofList xs : SignerSet).toList where
  increasing := (OrderedSet.ofList xs).sorted
  once := by
    refine List.Nodup.map Certificate.encoded_injective ?_
    exact (OrderedSet.ofList xs).sorted.imp ne_of_compare_lt
  same := Certificate.forall_mem_map_encoded_iff.mpr fun _ => OrderedSet.mem_ofList

/-- The certificates of a signer set are listed in the order in which sorting puts them. -/
theorem sort_toList (s : SignerSet) : Certificate.sort s.toList = s.toList :=
  Certificate.sort_of_isAscending (s.sorted.imp Ordering.isLE_of_eq_lt)

theorem ofList_eq_ofList_iff {xs ys : List Certificate} :
    (OrderedSet.ofList xs : SignerSet) = OrderedSet.ofList ys ↔
      ∀ e, e ∈ xs.map Certificate.encoded ↔ e ∈ ys.map Certificate.encoded := by
  rw [Certificate.forall_mem_map_encoded_iff]
  constructor
  · intro h c
    rw [← OrderedSet.mem_ofList, h, OrderedSet.mem_ofList]
  · intro h
    refine OrderedSet.ext_mem fun c => ?_
    rw [OrderedSet.mem_ofList, OrderedSet.mem_ofList, h]

theorem compare_eq_lt_iff {s t : SignerSet} :
    compare s t = .lt ↔ List.Lex (fun a b => compare a b = .lt) s.toList t.toList :=
  compare_list_eq_lt_iff

theorem empty_below {s : SignerSet} (h : s ≠ OrderedSet.empty) :
    compare OrderedSet.empty s = .lt := by
  rw [compare_eq_lt_iff]
  cases hlist : s.toList with
  | nil => exact absurd (OrderedSet.ext hlist) h
  | cons c rest => exact .nil

/-- **Certificates are in one order, and signer sets are canonical.** The order is by length
and then by the first differing byte, with sign; only certificates with the same encoding are
equal in it. Lists with the same encodings are collected to the same set, whose listing has
each encoding once, in increasing order, and is left alone by sorting. The sets of a profile
are ordered by their listings, as in a dictionary, with the empty set first. -/
theorem canonical_of_certificateOrder :
    (∀ a b : Certificate, compare a b = .lt ↔
        a.encoded.length < b.encoded.length ∨ a.encoded.length = b.encoded.length ∧
          FirstDiffer (fun x y => x.toInt8 < y.toInt8) a.encoded b.encoded) ∧
      IsTotalOrder (compare : Certificate → Certificate → Ordering) ∧
      (∀ a b : Certificate, compare a b = .eq ↔ a.encoded = b.encoded) ∧
      (∀ xs ys : List Certificate, (OrderedSet.ofList xs : SignerSet) = OrderedSet.ofList ys ↔
        ∀ e, e ∈ xs.map Certificate.encoded ↔ e ∈ ys.map Certificate.encoded) ∧
      (∀ xs : List Certificate, IsListing xs (OrderedSet.ofList xs : SignerSet).toList) ∧
      (∀ xs : List Certificate, Certificate.IsAscending (Certificate.sort xs)) ∧
      (∀ xs : List Certificate, Certificate.IsAscending xs → Certificate.sort xs = xs) ∧
      (∀ s : SignerSet, Certificate.sort s.toList = s.toList) ∧
      IsTotalOrder (compare : SignerSet → SignerSet → Ordering) ∧
      (∀ s t : SignerSet, compare s t = .lt ↔
        List.Lex (fun a b => compare a b = .lt) s.toList t.toList) ∧
      ∀ s : SignerSet, s ≠ OrderedSet.empty → compare OrderedSet.empty s = .lt :=
  ⟨fun _ _ => Certificate.compare_eq_lt_iff, isTotalOrder_compare,
    fun _ _ => Certificate.compare_eq_eq_iff, fun _ _ => ofList_eq_ofList_iff, isListing_ofList,
    Certificate.isAscending_sort, fun _ => Certificate.sort_of_isAscending, sort_toList,
    isTotalOrder_compare, fun _ _ => compare_eq_lt_iff, fun _ => empty_below⟩

end SignerSet

end CpkProvenance
