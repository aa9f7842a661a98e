import CpkProvenance.Text.Ascii
import Mathlib.Data.List.Basic

/-!
# Letter case

Two texts that agree in lower case agree in upper case, so that it does not
matter in which case a comparison is made. A beginning or an end is taken off a
text exactly if the text is put together from it and from what remains.
-/

namespace CpkProvenance.Text

section Characters

variable {c : Char}

theorem val_toLower_of_upper (h : 'A'.val ≤ c.val ∧ c.val ≤ 'Z'.val) :
    c.toLower.val = c.val + 32 :=
  congrArg Char.val (dif_pos h)

theorem toLower_of_not_upper (h : ¬ ('A'.val ≤ c.val ∧ c.val ≤ 'Z'.val)) : c.toLower = c :=
  dif_neg h

theorem val_toUpper_of_lower (h : 'a'.val ≤ c.val ∧ c.val ≤ 'z'.val) :
    c.toUpper.val = c.val - 32 :=
  (congrArg Char.val (dif_pos h)).trans (by grind)

theorem toUpper_of_not_lower (h : ¬ ('a'.val ≤ c.val ∧ c.val ≤ 'z'.val)) : c.toUpper = c :=
  dif_neg h

theorem toUpper_toLower (c : Char) : c.toLower.toUpper = c.toUpper := by
  by_cases h : 'A'.val ≤ c.val ∧ c.val ≤ 'Z'.val
  · have hval := val_toLower_of_upper h
    have hlower : 'a'.val ≤ c.toLower.val ∧ c.toLower.val ≤ 'z'.val := by grind
    have hother : ¬ ('a'.val ≤ c.val ∧ c.val ≤ 'z'.val) := by grind
    rw [toUpper_of_not_lower hother]
    apply Char.ext
    rw [val_toUpper_of_lower hlower, hval]
    grind
  · rw [toLower_of_not_upper h]

theorem toLower_toUpper (c : Char) : c.toUpper.toLower = c.toLower := by
  by_cases h : 'a'.val ≤ c.val ∧ c.val ≤ 'z'.val
  · have hval := val_toUpper_of_lower h
    have hupper : 'A'.val ≤ c.toUpper.val ∧ c.toUpper.val ≤ 'Z'.val := by grind
    have hother : ¬ ('A'.val ≤ c.val ∧ c.val ≤ 'Z'.val) := by grind
    rw [toLower_of_not_upper hother]
    apply Char.ext
    rw [val_toLower_of_upper hupper, hval]
    grind
  · rw [toUpper_of_not_lower h]

end Characters

@[simp] theorem toList_upper (text : String) :
    (upper text).toList = text.toList.map Char.toUpper := by
  simp [upper]

@[simp] theorem toList_lower (text : String) :
    (lower text).toList = text.toList.map Char.toLower := by
  simp [lower]

theorem upper_append (a b : String) : upper (a ++ b) = upper a ++ upper b := by
  apply String.toList_inj.mp
  simp

theorem upper_eq_empty_iff {text : String} : upper text = "" ↔ text = "" := by
  rw [← String.toList_eq_nil_iff, toList_upper, List.map_eq_nil_iff, String.toList_eq_nil_iff]

theorem upper_lower (text : String) : upper (lower text) = upper text := by
  apply String.toList_inj.mp
  rw [toList_upper, toList_lower, toList_upper, List.map_map]
  exact List.map_congr_left fun c _ => toUpper_toLower c

theorem lower_upper (text : String) : lower (upper text) = lower text := by
  apply String.toList_inj.mp
  rw [toList_lower, toList_upper, toList_lower, List.map_map]
  exact List.map_congr_left fun c _ => toLower_toUpper c

theorem equalIgnoringCase_iff {a b : String} :
    equalIgnoringCase a b = true ↔ lower a = lower b := by
  simp [equalIgnoringCase]

theorem equalIgnoringCase_iff_upper {a b : String} :
    equalIgnoringCase a b = true ↔ upper a = upper b := by
  rw [equalIgnoringCase_iff]
  constructor
  · intro h
    rw [← upper_lower a, h, upper_lower]
  · intro h
    rw [← lower_upper a, h, lower_upper]

theorem equalIgnoringCase_refl (a : String) : equalIgnoringCase a a = true :=
  equalIgnoringCase_iff.mpr rfl

/-- Texts that differ in case only are equal to the same texts. -/
theorem equalIgnoringCase_congr {a b : String} (h : equalIgnoringCase a b = true) (c : String) :
    equalIgnoringCase c a = equalIgnoringCase c b := by
  rw [Bool.eq_iff_iff, equalIgnoringCase_iff, equalIgnoringCase_iff, equalIgnoringCase_iff.mp h]

theorem dropStart?_eq_some_iff {start text rest : String} :
    dropStart? start text = some rest ↔ text = start ++ rest := by
  rw [dropStart?, ← @String.toList_inj text, String.toList_append]
  split
  · next h =>
      obtain ⟨tail, htail⟩ := List.isPrefixOf_iff_prefix.mp h
      rw [← htail, List.drop_left, List.append_cancel_left_eq, Option.some.injEq,
        ← String.toList_inj, String.toList_ofList]
  · next h =>
      simp only [reduceCtorEq, false_iff]
      intro e
      exact h (List.isPrefixOf_iff_prefix.mpr ⟨rest.toList, e.symm⟩)

theorem dropEnd?_eq_some_iff {tail text rest : String} :
    dropEnd? tail text = some rest ↔ text = rest ++ tail := by
  rw [dropEnd?, ← @String.toList_inj text, String.toList_append]
  split
  · next h =>
      obtain ⟨front, hfront⟩ := List.isSuffixOf_iff_suffix.mp h
      rw [← hfront, List.length_append, Nat.add_sub_cancel, List.take_left,
        List.append_cancel_right_eq, Option.some.injEq, ← String.toList_inj, String.toList_ofList]
  · next h =>
      simp only [reduceCtorEq, false_iff]
      intro e
      exact h (List.isSuffixOf_iff_suffix.mpr ⟨rest.toList, e.symm⟩)

end CpkProvenance.Text
