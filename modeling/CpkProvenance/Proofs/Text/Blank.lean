import CpkProvenance.Text.Blank

/-!
# Blank and trimmed texts

Texts of blank characters are blank. Trimming leaves a text alone that has no blank
characters, and takes away blank characters around it.
-/

namespace CpkProvenance.Text

theorem allBlank_ofList {text : List Char} (h : ∀ c ∈ text, isBlank c = true) :
    allBlank (String.ofList text) = true := by
  rw [allBlank, String.toList_ofList, List.all_eq_true]
  exact h

/-- A text that is not blank has a character that shows. -/
theorem allBlank_eq_false_iff {text : String} :
    allBlank text = false ↔ ∃ c ∈ text.toList, isBlank c = false := by
  rw [allBlank, List.all_eq_false]
  simp

theorem dropWhile_isBlank {text : List Char} (h : ∀ c ∈ text, isBlank c = false) :
    text.dropWhile isBlank = text := by
  cases text with
  | nil => rfl
  | cons c rest => rw [List.dropWhile_cons_of_neg (by simp [h c (List.mem_cons_self ..)])]

theorem trim_of_forall {text : String} (h : ∀ c ∈ text.toList, isBlank c = false) :
    trim text = text := by
  have hreverse : ∀ c ∈ text.toList.reverse, isBlank c = false :=
    fun c hc => h c (List.mem_reverse.mp hc)
  rw [trim, dropWhile_isBlank h, dropWhile_isBlank hreverse, List.reverse_reverse,
    String.ofList_toList]

/-- Trimming gives a text without blanks if that text stands between blanks. -/
theorem trim_eq_iff {text core : String} (hcore : ∀ c ∈ core.toList, isBlank c = false) :
    trim text = core ↔ ∃ before after : String, allBlank before = true ∧ allBlank after = true ∧
      text = before ++ core ++ after := by
  constructor
  · rintro rfl
    have hblank (rest : List Char) : ∀ c ∈ rest.takeWhile isBlank, isBlank c = true :=
      List.all_eq_true.mp List.all_takeWhile
    refine ⟨String.ofList (text.toList.takeWhile isBlank),
      String.ofList ((text.toList.dropWhile isBlank).reverse.takeWhile isBlank).reverse,
      allBlank_ofList (hblank _), allBlank_ofList ?_, ?_⟩
    · intro c hc
      exact hblank _ c (List.mem_reverse.mp hc)
    · rw [← String.toList_inj]
      simp only [trim, String.toList_append, String.toList_ofList, List.append_assoc,
        ← List.reverse_append, List.takeWhile_append_dropWhile, List.reverse_reverse]
  · rintro ⟨before, after, hbefore, hafter, rfl⟩
    have hbefore := List.all_eq_true.mp hbefore
    have hafter := List.all_eq_true.mp hafter
    have hreverse : ∀ c ∈ after.toList.reverse, isBlank c = true :=
      fun c hc => hafter c (List.mem_reverse.mp hc)
    have hcore' : ∀ c ∈ core.toList.reverse, isBlank c = false :=
      fun c hc => hcore c (List.mem_reverse.mp hc)
    rw [← String.toList_inj, trim, String.toList_ofList, String.toList_append,
      String.toList_append, List.append_assoc, List.dropWhile_append_of_pos hbefore]
    cases hchars : core.toList with
    | nil =>
        have hnil : (after.toList ++ []).dropWhile isBlank = [] :=
          List.dropWhile_append_of_pos hafter
        rw [List.nil_append, ← List.append_nil after.toList, hnil]
        rfl
    | cons c rest =>
        have hc : ¬ isBlank c = true := by
          rw [hcore c (hchars ▸ List.mem_cons_self ..)]
          exact Bool.false_ne_true
        rw [List.cons_append, List.dropWhile_cons_of_neg hc, ← List.cons_append, ← hchars,
          List.reverse_append, List.dropWhile_append_of_pos hreverse, dropWhile_isBlank hcore',
          List.reverse_reverse]

end CpkProvenance.Text
