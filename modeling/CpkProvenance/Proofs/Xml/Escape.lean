import CpkProvenance.Proofs.Traced
import CpkProvenance.Xml.Escape

/-!
# Escaped text is read back

Escaping leaves no character that could be taken for markup or for the end of a
quoted value, and unescaping gives back the text.
-/

namespace CpkProvenance.Xml

section Runs

variable {p : Char → Bool} {run rest : List Char} {stop : Char}

/-- A run of characters ends at the first that does not belong to it. -/
theorem takeWhile_run (h : ∀ c ∈ run, p c = true) (hstop : p stop = false) :
    (run ++ stop :: rest).takeWhile p = run := by
  rw [List.takeWhile_append_of_pos h, List.takeWhile_cons_of_neg (by simp [hstop]), List.append_nil]

theorem dropWhile_run (h : ∀ c ∈ run, p c = true) (hstop : p stop = false) :
    (run ++ stop :: rest).dropWhile p = stop :: rest := by
  rw [List.dropWhile_append_of_pos h, List.dropWhile_cons_of_neg (by simp [hstop])]

end Runs

/-- Whether a character has a meaning in markup. -/
def isMarkup (c : Char) : Bool :=
  c == '<' || c == '>' || c == '\x27' || c == '\x22'

/-- A character either has a reference, which stands for it, or none because it has
no meaning in markup. -/
theorem entityName?_cases (c : Char) :
    (entityName? c = none ∧ c ≠ '&' ∧ isMarkup c = false) ∨
      ∃ name, entityName? c = some name ∧ entity? name = some c ∧
        ∀ d ∈ name, inReference d = true ∧ isMarkup d = false := by
  have plain (name : List Char) (h : name.all (fun d => inReference d && !isMarkup d) = true) :
      ∀ d ∈ name, inReference d = true ∧ isMarkup d = false := by
    simpa using h
  unfold entityName?
  split
  · next h => exact .inr ⟨_, rfl, by rw [h]; rfl, plain _ rfl⟩
  · split
    · next h => exact .inr ⟨_, rfl, by rw [h]; rfl, plain _ rfl⟩
    · split
      · next h => exact .inr ⟨_, rfl, by rw [h]; rfl, plain _ rfl⟩
      · split
        · next h => exact .inr ⟨_, rfl, by rw [h]; rfl, plain _ rfl⟩
        · split
          · next h => exact .inr ⟨_, rfl, by rw [h]; rfl, plain _ rfl⟩
          · next hlt hgt hamp hapos hquot =>
              exact .inl ⟨rfl, hamp, by simp [isMarkup, hlt, hgt, hapos, hquot]⟩

theorem isMarkup_of_mem_escapeChar {c d : Char} (h : d ∈ escapeChar c) : isMarkup d = false := by
  unfold escapeChar at h
  obtain ⟨hnone, _, hc⟩ | ⟨name, hname, _, hall⟩ := entityName?_cases c
  · rw [hnone, List.mem_singleton] at h
    rw [h, hc]
  · simp only [hname, List.mem_cons, List.mem_append, List.not_mem_nil, or_false] at h
    obtain rfl | hd | rfl := h
    · rfl
    · exact (hall d hd).2
    · rfl

theorem isMarkup_of_mem_escape {text : List Char} {d : Char} (h : d ∈ escape text) :
    isMarkup d = false := by
  obtain ⟨c, _, hd⟩ := List.mem_flatMap.mp h
  exact isMarkup_of_mem_escapeChar hd

theorem escape_cons (c : Char) (text : List Char) :
    escape (c :: text) = escapeChar c ++ escape text :=
  rfl

theorem escape_eq_nil_iff {text : List Char} : escape text = [] ↔ text = [] := by
  cases text with
  | nil => exact ⟨fun _ => rfl, fun _ => rfl⟩
  | cons c text =>
      rw [escape_cons, List.append_eq_nil_iff, escapeChar]
      cases entityName? c <;> simp

/-- A reference by name is resolved, whatever follows it. -/
theorem reference_of_entity {name : List Char} {c : Char}
    (hname : ∀ d ∈ name, inReference d = true) (h : entity? name = some c) (total : Nat)
    (rest : List Char) : reference total (name ++ ';' :: rest) = .ok c := by
  unfold reference
  rw [takeWhile_run hname (by decide)]
  split
  · cases h
  · rw [h]

theorem unescapeFrom_escapeChar (total : Nat) (c : Char) (rest : List Char) :
    unescapeFrom total (escapeChar c ++ rest) = (unescapeFrom total rest).map (c :: ·) := by
  unfold escapeChar
  obtain ⟨hnone, hamp, _⟩ | ⟨name, hname, hentity, hall⟩ := entityName?_cases c
  · rw [hnone, List.singleton_append, unescapeFrom, if_neg hamp]
    cases unescapeFrom total rest <;> rfl
  · have hin : ∀ d ∈ name, inReference d = true := fun d hd => (hall d hd).1
    have hdrop : (name ++ ';' :: rest).dropWhile inReference = ';' :: rest :=
      dropWhile_run hin (by decide)
    rw [hname, List.cons_append, List.append_assoc, List.singleton_append, unescapeFrom,
      if_pos rfl]
    split
    · next after hafter =>
        obtain ⟨_, rfl⟩ := List.cons.inj (hdrop.symm.trans hafter)
        rw [reference_of_entity hin hentity]
        cases unescapeFrom total rest <;> rfl
    · next hother => exact absurd hdrop (hother rest)

theorem unescapeFrom_escape (total : Nat) (text : List Char) :
    unescapeFrom total (escape text) = .ok text := by
  induction text with
  | nil => rw [escape, List.flatMap_nil, unescapeFrom]
  | cons c text ih =>
      rw [escape_cons, unescapeFrom_escapeChar, ih]
      rfl

theorem unescape_escape (text : List Char) : unescape (escape text) = .ok text :=
  unescapeFrom_escape _ text

end CpkProvenance.Xml
