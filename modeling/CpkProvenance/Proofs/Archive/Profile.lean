import CpkProvenance.Archive.Basic
import CpkProvenance.Proofs.OrderedSet
import CpkProvenance.Proofs.Traced
import Mathlib.Data.Set.Basic

/-!
# Profiles

The profile of an archive exists exactly if every entry was read, and is then the
set of the signer sets of the signable entries. What is logged on the way and in
which order the entries stand does not matter for it. A line is logged for every
signable entry without signing certificates.
-/

namespace CpkProvenance

namespace SignerSet

theorem mem_ofSigners {signers : List CodeSigner} {c : Certificate} :
    c ∈ ofSigners signers ↔ ∃ s ∈ signers, s.certificate? = some c := by
  rw [ofSigners, OrderedSet.mem_ofList, List.mem_filterMap]

/-- Signer sets compare the signing certificates of two lists, not the lists. -/
theorem ofSigners_eq_of_mem_iff {xs ys : List CodeSigner} (h : ∀ s, s ∈ xs ↔ s ∈ ys) :
    ofSigners xs = ofSigners ys := by
  apply OrderedSet.ext_mem
  intro c
  simp only [mem_ofSigners, h]

end SignerSet

namespace Archive

/-- The profile after one more entry. -/
def addEntry (p : Profile) (e : Entry) : Profile :=
  if isSignable e.name e.isDirectory then p.insert (SignerSet.ofSigners e.signers) else p

theorem mem_addEntry {p : Profile} {e : Entry} {s : SignerSet} :
    s ∈ addEntry p e ↔
      s ∈ p ∨ isSignable e.name e.isDirectory = true ∧ SignerSet.ofSigners e.signers = s := by
  unfold addEntry
  split
  · next h =>
      rw [OrderedSet.mem_insert]
      constructor
      · rintro (rfl | hs)
        · exact .inr ⟨h, rfl⟩
        · exact .inl hs
      · rintro (hs | ⟨_, rfl⟩)
        · exact .inr hs
        · exact .inl rfl
  · next h =>
      constructor
      · exact .inl
      · rintro (hs | ⟨hsign, _⟩)
        · exact hs
        · exact absurd hsign h

theorem mem_foldl_addEntry {p : Profile} {entries : List Entry} {s : SignerSet} :
    s ∈ entries.foldl addEntry p ↔
      s ∈ p ∨ ∃ e ∈ entries,
        isSignable e.name e.isDirectory = true ∧ SignerSet.ofSigners e.signers = s := by
  induction entries generalizing p with
  | nil => simp
  | cons e entries ih =>
      rw [List.foldl_cons, ih, mem_addEntry]
      simp only [List.mem_cons, exists_eq_or_imp, or_assoc]

section Run

/-- An entry that must be signed. -/
abbrev Entry.IsSignable (e : Entry) : Prop :=
  isSignable e.name e.isDirectory = true

/-- The signing certificates of an entry: the first ones of its signers' paths. -/
def Entry.leaves (e : Entry) : Set Certificate :=
  {c | ∃ s ∈ e.signers, s.path.head? = some c}

/-- An entry that must be signed, but has no signing certificate. -/
def Entry.IsUnsigned (e : Entry) : Prop :=
  e.IsSignable ∧ e.leaves = ∅

theorem isEmpty_ofSigners_iff {e : Entry} :
    (SignerSet.ofSigners e.signers).isEmpty = true ↔ e.leaves = ∅ := by
  rw [OrderedSet.isEmpty, List.isEmpty_iff, List.eq_nil_iff_forall_not_mem,
    Set.eq_empty_iff_forall_notMem]
  exact forall_congr' fun c => not_congr SignerSet.mem_ofSigners

instance : DecidablePred Entry.IsUnsigned := fun e =>
  decidable_of_iff (e.IsSignable ∧ (SignerSet.ofSigners e.signers).isEmpty = true)
    (and_congr_right fun _ => isEmpty_ofSigners_iff)

/-- The lines that report unsigned entries. -/
def warnings (archive : String) (es : List Entry) : List LogLine :=
  (es.filter fun e => decide e.IsUnsigned).map fun e =>
    ⟨.warn, archive ++ ":" ++ e.name ++ " is unsigned"⟩

theorem warnings_cons (archive : String) (e : Entry) (es : List Entry) :
    warnings archive (e :: es) = warnings archive [e] ++ warnings archive es := by
  rw [warnings, warnings, warnings, ← List.map_append, ← List.filter_append,
    List.singleton_append]

/-- One entry that was read counts, and adds its signers, and a line if it has none. -/
theorem profileFrom_cons (archive : String) (p : Profile) (e : Entry)
    (rest : List (Except Failure Entry)) :
    profileFrom archive p (.ok e :: rest) =
      ⟨warnings archive [e] ++ (profileFrom archive (addEntry p e) rest).log,
        (profileFrom archive (addEntry p e) rest).reads + 1,
        (profileFrom archive (addEntry p e) rest).result⟩ := by
  rw [profileFrom, Traced.read_ok_bind, addEntry]
  by_cases hsignable : isSignable e.name e.isDirectory = true
  · by_cases hempty : (SignerSet.ofSigners e.signers).isEmpty = true
    · have hreported : e.IsUnsigned := ⟨hsignable, isEmpty_ofSigners_iff.mp hempty⟩
      simp only [hsignable, hempty, if_true, warnings, List.filter_cons, hreported, decide_true,
        Traced.write_bind]
      rfl
    · have hsilent : ¬ e.IsUnsigned := fun h => hempty (isEmpty_ofSigners_iff.mpr h.2)
      simp only [hsignable, hempty, if_true, warnings, List.filter_cons, hsilent, decide_false]
      rfl
  · have hsilent : ¬ e.IsUnsigned := fun h => hsignable h.1
    simp only [hsignable, warnings, List.filter_cons, hsilent, decide_false]
    rfl

/-- The run of the profile over entries that were read: it adds them one by one, before it
looks at what comes after them. -/
theorem profileFrom_append (archive : String) (p : Profile) (es : List Entry)
    (rest : List (Except Failure Entry)) :
    profileFrom archive p (es.map .ok ++ rest) =
      ⟨warnings archive es ++ (profileFrom archive (es.foldl addEntry p) rest).log,
        (profileFrom archive (es.foldl addEntry p) rest).reads + es.length,
        (profileFrom archive (es.foldl addEntry p) rest).result⟩ := by
  induction es generalizing p with
  | nil => rfl
  | cons e es ih =>
      rw [List.map_cons, List.cons_append, profileFrom_cons, ih, warnings_cons archive e es,
        List.append_assoc, List.foldl_cons]
      rfl

/-- The profile of entries that were read. -/
def profileOf (es : List Entry) : Profile :=
  es.foldl addEntry OrderedSet.empty

theorem mem_profileOf {es : List Entry} {s : SignerSet} :
    s ∈ profileOf es ↔ ∃ e ∈ es, e.IsSignable ∧ SignerSet.ofSigners e.signers = s := by
  rw [profileOf, mem_foldl_addEntry]
  simp

theorem profile_of_read {a : Archive} {es : List Entry} (h : a.entries = es.map .ok) :
    a.profile = ⟨warnings a.name es, es.length, .ok (profileOf es)⟩ := by
  have hrun := profileFrom_append a.name OrderedSet.empty es []
  rw [List.append_nil, ← h] at hrun
  rw [profile, hrun]
  simp [profileFrom, profileOf, pure, Traced.pure]

theorem profile_of_unread {a : Archive} {front : List Entry} {failure : Failure}
    {back : List (Except Failure Entry)}
    (h : a.entries = front.map .ok ++ .error failure :: back) :
    a.profile = ⟨warnings a.name front, front.length, .error failure⟩ := by
  rw [profile, h, profileFrom_append, profileFrom, Traced.read_error_bind]
  simp [Traced.fail]

/-- Either all entries were read, or there is a first one that was not. -/
theorem entries_cases (a : Archive) :
    (∃ es : List Entry, a.entries = es.map .ok) ∨
      ∃ (front : List Entry) (failure : Failure) (back : List (Except Failure Entry)),
        a.entries = front.map .ok ++ .error failure :: back := by
  cases h : a.entries.mapM id with
  | ok es => exact .inl ⟨es, mapM_id_eq_ok_iff.mp h⟩
  | error failure =>
      obtain ⟨front, back, hentries⟩ := mapM_id_eq_error_iff.mp h
      exact .inr ⟨front, failure, back, hentries⟩

end Run

theorem profile_eq_ok_iff {a : Archive} {q : Profile} :
    a.profile.result = .ok q ↔
      ∃ es : List Entry, a.entries = es.map .ok ∧ ∀ s, s ∈ q ↔ ∃ e ∈ es,
        isSignable e.name e.isDirectory = true ∧ SignerSet.ofSigners e.signers = s := by
  constructor
  · intro h
    rcases a.entries_cases with ⟨es, hes⟩ | ⟨front, failure, back, hentries⟩
    · rw [profile_of_read hes] at h
      obtain rfl := Except.ok.inj h
      exact ⟨es, hes, fun s => mem_profileOf⟩
    · rw [profile_of_unread hentries] at h
      cases h
  · rintro ⟨es, hes, hq⟩
    rw [profile_of_read hes]
    refine congrArg Except.ok (OrderedSet.ext_mem fun s => ?_)
    rw [mem_profileOf, hq]

end Archive

namespace Profile

theorem single?_eq_some_iff {p : Profile} {s : SignerSet} :
    p.single? = some s ↔ p.toList = [s] := by
  unfold single?
  split
  · next t h => rw [h, Option.some.injEq, List.cons.injEq, and_iff_left rfl]
  · next h =>
      simp only [reduceCtorEq, false_iff]
      exact h s

/-- A profile has an only set if all its sets are equal and there is one. -/
theorem single?_eq_some_iff_mem {p : Profile} {s : SignerSet} :
    p.single? = some s ↔ ∀ t, t ∈ p ↔ t = s := by
  constructor
  · intro h t
    rw [OrderedSet.mem_def, single?_eq_some_iff.mp h, List.mem_singleton]
  · intro h
    have hp : p = ⟨[s], List.pairwise_singleton _ s⟩ := by
      apply OrderedSet.ext_mem
      intro t
      rw [h, OrderedSet.mem_def, List.mem_singleton]
    rw [single?_eq_some_iff, hp]

end Profile

end CpkProvenance
