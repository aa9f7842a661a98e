import CpkProvenance.Path
import CpkProvenance.Proofs.Text.Cut

/-!
# Joined paths and last names

The path of a file in a directory takes the steps of the path of the directory, and
then those of the name of the file. Whether there is a slash between the two already
makes no difference.

The other way round, the file name of a path stands in its text after the last slash, if
slashes and single dots at the very end are left out of account.
-/

namespace CpkProvenance

namespace Path

section Joined

theorem steps_append_slash (front back : String) :
    steps (front ++ "/" ++ back) = steps front ++ steps back := by
  rw [steps, String.append_assoc, String.toList_append, String.toList_append]
  exact (congrArg _ (Text.splitAll_append_cons '/' front.toList back.toList)).trans List.map_append

/-- A slash is put between a directory and a name unless one is there. -/
theorem join_cases {output : String} (h : output ≠ "") (name : String) :
    (∃ front, output = front ++ "/" ∧ join output name = output ++ name) ∨
      join output name = output ++ "/" ++ name := by
  rw [join]
  split
  · next hlast =>
      rw [List.getLast?_eq_none_iff] at hlast
      exact absurd (String.toList_eq_nil_iff.mp hlast) h
  · next hlast =>
      obtain ⟨front, hfront⟩ := List.getLast?_eq_some_iff.mp hlast
      have houtput : output = String.ofList front ++ "/" := by
        rw [← String.toList_inj, hfront, String.toList_append, String.toList_ofList]
        rfl
      exact .inl ⟨String.ofList front, houtput, rfl⟩
  · exact .inr rfl

/-- The path of a file in a directory takes the steps of the directory first, but for a last
one that stays. -/
theorem steps_join {output : String} (h : output ≠ "") (name : String) :
    ∃ front, (steps output = front ∨ steps output = front ++ [.stay]) ∧
      steps (join output name) = front ++ steps name := by
  rcases join_cases h name with ⟨front, houtput, hjoin⟩ | hjoin
  · have hslash : steps output = steps front ++ [.stay] := by
      have hback := steps_append_slash front ""
      rw [String.append_empty] at hback
      rw [houtput, hback]
      rfl
    refine ⟨steps front, .inr hslash, ?_⟩
    rw [hjoin, houtput, steps_append_slash]
  · refine ⟨steps output, .inl rfl, ?_⟩
    rw [hjoin, steps_append_slash]

theorem isAbsolute_append {output : String} (h : output ≠ "") (back : String) :
    isAbsolute (output ++ back) = isAbsolute output := by
  rw [isAbsolute, isAbsolute, String.toList_append]
  cases hchars : output.toList with
  | nil => exact absurd (String.toList_eq_nil_iff.mp hchars) h
  | cons c rest => rfl

theorem isAbsolute_join {output : String} (h : output ≠ "") (name : String) :
    isAbsolute (join output name) = isAbsolute output := by
  rcases join_cases h name with ⟨_, _, hjoin⟩ | hjoin
  · rw [hjoin, isAbsolute_append h]
  · rw [hjoin, String.append_assoc, isAbsolute_append h]

end Joined

section LastName

/-- What may stand after the last name of a path: slashes, with a dot after some of them. -/
inductive IsTrailing : List Char → Prop
  | nil : IsTrailing []
  | slash {rest : List Char} (h : IsTrailing rest) : IsTrailing ('/' :: rest)
  | dot {rest : List Char} (h : IsTrailing rest) : IsTrailing ('/' :: '.' :: rest)

/-- A name stands after the last slash of a path, but for trailing ones. -/
structure IsLastName (path name : String) : Prop where
  cut : ∃ front trailing, path.toList = front ++ (name.toList ++ trailing) ∧
    (front = [] ∨ front.getLast? = some '/') ∧ IsTrailing trailing
  noSlash : '/' ∉ name.toList
  moves : name ≠ "" ∧ name ≠ "." ∧ name ≠ ".."

theorem Step.ofPiece_eq_down_iff {piece : List Char} {name : String} :
    Step.ofPiece piece = .down name ↔
      piece = name.toList ∧ name ≠ "" ∧ name ≠ "." ∧ name ≠ ".." := by
  have hmoves : (name ≠ "" ∧ name ≠ "." ∧ name ≠ "..") ↔
      name.toList ≠ [] ∧ name.toList ≠ ['.'] ∧ name.toList ≠ ['.', '.'] := by
    simp only [Ne, ← String.toList_inj]
    rfl
  rw [hmoves, Step.ofPiece]
  constructor
  · intro h
    split at h
    · cases h
    · next hstay =>
        split at h
        · cases h
        · next hup =>
            cases h
            rw [String.toList_ofList]
            exact ⟨rfl, (not_or.mp hstay).1, (not_or.mp hstay).2, hup⟩
  · rintro ⟨rfl, hempty, hdot, hup⟩
    rw [if_neg (not_or.mpr ⟨hempty, hdot⟩), if_neg hup, String.ofList_toList]

theorem Step.ofPiece_eq_stay_iff {piece : List Char} :
    Step.ofPiece piece = .stay ↔ piece = [] ∨ piece = ['.'] := by
  unfold Step.ofPiece
  split
  · simp [*]
  · split <;> simp [*]

theorem fileName?_eq_some_iff_getLast? {path name : String} :
    fileName? path = some name ↔
      ((steps path).filter (· ≠ .stay)).getLast? = some (.down name) := by
  rw [fileName?]
  split
  · next other hother => rw [hother, Option.some_inj, Option.some_inj, Step.down.injEq]
  · next hnot => exact iff_of_false (by rintro ⟨⟩) (hnot name)

/-- The pieces of a path around its last name. -/
theorem fileName?_eq_some_iff_splitAll {path name : String} :
    fileName? path = some name ↔ (name ≠ "" ∧ name ≠ "." ∧ name ≠ "..") ∧
      ∃ before after, Text.splitAll '/' path.toList = before ++ name.toList :: after ∧
        ∀ piece ∈ after, Step.ofPiece piece = .stay := by
  rw [fileName?_eq_some_iff_getLast?, steps, List.filter_map, List.getLast?_map,
    List.getLast?_filter, Option.map_eq_some_iff]
  -- The last piece that moves is the first one from the end, hence the two reversed parts.
  constructor
  · rintro ⟨piece, hfind, hpiece⟩
    obtain ⟨rfl, hmoves⟩ := Step.ofPiece_eq_down_iff.mp hpiece
    obtain ⟨_, after, before, hpieces, hafter⟩ := List.find?_eq_some_iff_append.mp hfind
    refine ⟨hmoves, before.reverse, after.reverse, ?_, fun other hother => ?_⟩
    · rw [← List.reverse_reverse (Text.splitAll _ _), hpieces]
      simp
    · simpa using hafter other (List.mem_reverse.mp hother)
  · rintro ⟨hmoves, before, after, hpieces, hafter⟩
    have hname := Step.ofPiece_eq_down_iff.mpr ⟨rfl, hmoves⟩
    refine ⟨name.toList, List.find?_eq_some_iff_append.mpr ⟨by simp [hname], after.reverse,
      before.reverse, by simp [hpieces], fun other hother => ?_⟩, hname⟩
    simp [hafter other (List.mem_reverse.mp hother)]

theorem fileName?_of_getLast? {path name : String}
    (h : (steps path).getLast? = some (.down name)) : fileName? path = some name := by
  obtain ⟨front, hsteps⟩ := List.getLast?_eq_some_iff.mp h
  rw [fileName?_eq_some_iff_getLast?, hsteps, List.filter_append,
    List.filter_cons_of_pos (by simp), List.filter_nil, List.getLast?_concat]

theorem steps_ne_nil (path : String) : steps path ≠ [] := by
  rw [steps, Ne, List.map_eq_nil_iff]
  exact Text.splitAll_ne_nil '/' path.toList

theorem IsTrailing.of_stays {pieces : List (List Char)}
    (h : ∀ piece ∈ pieces, Step.ofPiece piece = .stay) :
    IsTrailing (pieces.flatMap ('/' :: ·)) := by
  induction pieces with
  | nil => exact .nil
  | cons piece pieces ih =>
      rw [List.forall_mem_cons, Step.ofPiece_eq_stay_iff] at h
      rw [List.flatMap_cons]
      obtain ⟨rfl | rfl, hpieces⟩ := h
      · exact .slash (ih hpieces)
      · exact .dot (ih hpieces)

/-- A slash takes no step, and neither does a dot before it. -/
theorem stays_slash {text : List Char}
    (h : ∀ piece ∈ Text.splitAll '/' text, Step.ofPiece piece = .stay) :
    (∀ piece ∈ Text.splitAll '/' ('/' :: text), Step.ofPiece piece = .stay) ∧
      ∀ piece ∈ Text.splitAll '/' ('.' :: '/' :: text), Step.ofPiece piece = .stay := by
  have hnone : Text.splitAll '/' ('/' :: text) = [] :: Text.splitAll '/' text :=
    Text.splitAll_append_cons '/' [] text
  have hdot : Text.splitAll '/' ('.' :: '/' :: text) = ['.'] :: Text.splitAll '/' text :=
    Text.splitAll_append_cons '/' ['.'] text
  rw [hnone, hdot]
  exact ⟨List.forall_mem_cons.mpr ⟨rfl, h⟩, List.forall_mem_cons.mpr ⟨rfl, h⟩⟩

/-- What stands after a name takes no step. The dot in front is for the induction: after a
slash there may be one. -/
theorem IsTrailing.stays {text : List Char} (h : IsTrailing text) :
    (∀ piece ∈ Text.splitAll '/' text, Step.ofPiece piece = .stay) ∧
      ∀ piece ∈ Text.splitAll '/' ('.' :: text), Step.ofPiece piece = .stay := by
  induction h with
  | nil => decide
  | slash _ ih => exact stays_slash ih.1
  | dot _ ih => exact stays_slash ih.2

/-- A name that stands before nothing but slashes and dots is a first piece. -/
theorem exists_splitAll_append_trailing {name trailing : List Char} (hname : '/' ∉ name)
    (h : IsTrailing trailing) :
    ∃ after, Text.splitAll '/' (name ++ trailing) = name :: after ∧
      ∀ piece ∈ after, Step.ofPiece piece = .stay := by
  have hslash (rest : List Char) :
      Text.splitAll '/' (name ++ '/' :: rest) = name :: Text.splitAll '/' rest := by
    rw [Text.splitAll_append_cons, Text.splitAll_of_not_mem hname, List.singleton_append]
  cases h with
  | nil => exact ⟨[], by rw [List.append_nil, Text.splitAll_of_not_mem hname], by simp⟩
  | @slash rest h => exact ⟨_, hslash rest, h.stays.1⟩
  | @dot rest h => exact ⟨_, hslash ('.' :: rest), h.stays.2⟩

/-- The name at the end of a path is the one that stands last in its text. -/
theorem fileName?_eq_some_iff_isLastName {path name : String} :
    fileName? path = some name ↔ IsLastName path name := by
  rw [fileName?_eq_some_iff_splitAll]
  constructor
  · rintro ⟨hmoves, before, after, hpieces, hafter⟩
    refine ⟨⟨before.flatMap (· ++ ['/']), after.flatMap ('/' :: ·),
      Text.eq_of_splitAll_append hpieces, ?_, .of_stays hafter⟩, ?_, hmoves⟩
    · obtain rfl | ⟨front, last, rfl⟩ := before.eq_nil_or_concat
      · exact .inl rfl
      · right
        simp
    · exact Text.not_mem_of_mem_splitAll (hpieces ▸ List.mem_append_right _ List.mem_cons_self)
  · rintro ⟨⟨front, trailing, hpath, hfront, htrailing⟩, hslash, hmoves⟩
    obtain ⟨after, hafter, hstays⟩ := exists_splitAll_append_trailing hslash htrailing
    refine ⟨hmoves, ?_⟩
    rw [hpath]
    obtain rfl | hlast := hfront
    · exact ⟨[], after, hafter, hstays⟩
    · obtain ⟨above, rfl⟩ := List.getLast?_eq_some_iff.mp hlast
      refine ⟨Text.splitAll '/' above, after, ?_, hstays⟩
      rw [List.append_assoc, List.singleton_append, Text.splitAll_append_cons, hafter]

end LastName

end Path

end CpkProvenance
