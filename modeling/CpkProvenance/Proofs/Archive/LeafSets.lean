import CpkProvenance.Proofs.Archive.Profile
import Mathlib.Data.Set.Image
import Mathlib.Logic.Relation

/-!
# Profiles as sets of sets

The profile of an archive whose entries can all be read is the set of the sets of signing
certificates of its signable entries, and nothing else about the archive shows in it: not
the order or number of entries and signers, not the certificates behind a signing
certificate, and no entry that is exempt. If an entry cannot be read, the profile ends
there, and what comes after it is not read.
-/

namespace CpkProvenance

/-- The members of an ordered set, without their order. -/
def OrderedSet.toSet {α : Type} [Ord α] (s : OrderedSet α) : Set α :=
  {a | a ∈ s}

theorem OrderedSet.toSet_injective {α : Type} [Ord α] [Std.TransOrd α] :
    Function.Injective (toSet : OrderedSet α → Set α) := by
  intro s t h
  apply ext_mem
  intro a
  exact Set.ext_iff.mp h a

/-- The sets of a profile. -/
def Profile.leafSets (p : Profile) : Set (Set Certificate) :=
  OrderedSet.toSet '' p.toSet

theorem Profile.leafSets_injective : Function.Injective Profile.leafSets :=
  OrderedSet.toSet_injective.image_injective.comp OrderedSet.toSet_injective

namespace Archive

/-- The sets of signing certificates of the entries that must be signed. -/
def leafSets (es : List Entry) : Set (Set Certificate) :=
  {leaves | ∃ e ∈ es, e.IsSignable ∧ e.leaves = leaves}

theorem mem_leafSets {es : List Entry} {leaves : Set Certificate} :
    leaves ∈ leafSets es ↔ ∃ e ∈ es, e.IsSignable ∧ e.leaves = leaves := Iff.rfl

theorem Entry.mem_leaves {e : Entry} {c : Certificate} :
    c ∈ e.leaves ↔ ∃ s ∈ e.signers, s.path.head? = some c := Iff.rfl

theorem toSet_ofSigners (e : Entry) : (SignerSet.ofSigners e.signers).toSet = e.leaves := by
  ext c
  exact SignerSet.mem_ofSigners

theorem leafSets_profileOf (es : List Entry) : (profileOf es).leafSets = leafSets es := by
  ext leaves
  constructor
  · rintro ⟨s, hs, rfl⟩
    obtain ⟨e, he, hsignable, rfl⟩ := mem_profileOf.mp hs
    exact ⟨e, he, hsignable, (toSet_ofSigners e).symm⟩
  · rintro ⟨e, he, hsignable, rfl⟩
    exact ⟨_, mem_profileOf.mpr ⟨e, he, hsignable, rfl⟩, toSet_ofSigners e⟩

theorem result_profile_eq_iff {a b : Archive} {es fs : List Entry} (ha : a.entries = es.map .ok)
    (hb : b.entries = fs.map .ok) :
    a.profile.result = b.profile.result ↔ leafSets es = leafSets fs := by
  rw [profile_of_read ha, profile_of_read hb, Except.ok.injEq, ← Profile.leafSets_injective.eq_iff,
    leafSets_profileOf, leafSets_profileOf]

section Changes

/-- A change of an entry's signers that leaves the signing certificates as they are. -/
inductive SignersChange : List CodeSigner → List CodeSigner → Prop
  | permuted {xs ys : List CodeSigner} (perm : xs.Perm ys) : SignersChange xs ys
  | duplicated {s : CodeSigner} {xs : List CodeSigner} (mem : s ∈ xs) : SignersChange xs (s :: xs)
  | behindLeaf (leaf : Certificate) (path path' : List Certificate) (xs : List CodeSigner) :
      SignersChange (⟨leaf :: path⟩ :: xs) (⟨leaf :: path'⟩ :: xs)
  | pathless (xs : List CodeSigner) : SignersChange xs (⟨[]⟩ :: xs)

/-- A change of the entries of an archive that does not show in its profile. -/
inductive Change : List Entry → List Entry → Prop
  | permuted {es fs : List Entry} (perm : es.Perm fs) : Change es fs
  | duplicated {e : Entry} {es : List Entry} (mem : e ∈ es) : Change es (e :: es)
  | exempt {e : Entry} (es : List Entry) (isExempt : ¬ e.IsSignable) : Change es (e :: es)
  | resigned (name : String) (isDirectory : Bool) (es : List Entry) {xs ys : List CodeSigner}
      (change : SignersChange xs ys) :
      Change (⟨name, isDirectory, xs⟩ :: es) (⟨name, isDirectory, ys⟩ :: es)

/-- Entries that any number of such changes, in both directions, lead to. -/
def Alike : List Entry → List Entry → Prop :=
  Relation.EqvGen Change

variable {es fs : List Entry}

theorem SignersChange.leaves_eq {xs ys : List CodeSigner} (h : SignersChange xs ys)
    (name : String) (isDirectory : Bool) :
    Entry.leaves ⟨name, isDirectory, xs⟩ = Entry.leaves ⟨name, isDirectory, ys⟩ := by
  ext c
  simp only [Entry.mem_leaves]
  cases h with
  | permuted hperm => simp only [hperm.mem_iff]
  | @duplicated s _ hs =>
      rw [List.exists_mem_cons_iff]
      exact ⟨.inr, fun h => h.elim (fun hc => ⟨s, hs, hc⟩) id⟩
  | behindLeaf leaf path path' xs =>
      rw [List.exists_mem_cons_iff, List.exists_mem_cons_iff]
      rfl
  | pathless xs =>
      rw [List.exists_mem_cons_iff]
      exact (or_iff_right (by rintro ⟨⟩)).symm

theorem mem_leafSets_cons {e : Entry} {leaves : Set Certificate} :
    leaves ∈ leafSets (e :: es) ↔ (e.IsSignable ∧ e.leaves = leaves) ∨ leaves ∈ leafSets es :=
  List.exists_mem_cons_iff _ e es

theorem Change.leafSets_eq (h : Change es fs) : leafSets es = leafSets fs := by
  ext leaves
  cases h with
  | permuted hperm => simp only [mem_leafSets, hperm.mem_iff]
  | @duplicated e _ he =>
      rw [mem_leafSets_cons]
      exact ⟨.inr, fun h => h.elim (fun hleaves => ⟨e, he, hleaves⟩) id⟩
  | exempt es hexempt =>
      rw [mem_leafSets_cons]
      exact (or_iff_right fun hleaves => hexempt hleaves.1).symm
  | resigned name isDirectory es hchange =>
      rw [mem_leafSets_cons, mem_leafSets_cons, hchange.leaves_eq]

theorem Alike.leafSets_eq (h : Alike es fs) : leafSets es = leafSets fs := by
  induction h with
  | rel _ _ hchange => exact hchange.leafSets_eq
  | refl _ => rfl
  | symm _ _ _ ih => exact ih.symm
  | trans _ _ _ _ _ ih₁ ih₂ => exact ih₁.trans ih₂

end Changes

/-- **The profile is the set of sets of signing certificates** of the signable entries, if all
entries can be read. So it is the same for two archives exactly if these sets are, and in
particular after any changes of the kinds above. A line is logged for each signable entry
without signing certificates. If an entry cannot be read, the profile is the failure of the
first such one: the entries before it are read, with their lines, and none after it. -/
theorem profile_eq_leafSets (a : Archive) :
    (∃ es : List Entry, a.entries = es.map .ok ∧
      (∃ p, a.profile = ⟨warnings a.name es, es.length, .ok p⟩ ∧ p.leafSets = leafSets es) ∧
      ∀ (b : Archive) (fs : List Entry), b.entries = fs.map .ok →
        (a.profile.result = b.profile.result ↔ leafSets es = leafSets fs) ∧
        (Alike es fs → a.profile.result = b.profile.result)) ∨
    ∃ (front : List Entry) (failure : Failure) (back : List (Except Failure Entry)),
      a.entries = front.map .ok ++ .error failure :: back ∧
      a.profile = ⟨warnings a.name front, front.length, .error failure⟩ := by
  rcases a.entries_cases with ⟨es, hes⟩ | ⟨front, failure, back, hentries⟩
  · refine .inl ⟨es, hes, ⟨profileOf es, profile_of_read hes, leafSets_profileOf es⟩,
      fun b fs hfs => ?_⟩
    have hsame := result_profile_eq_iff hes hfs
    exact ⟨hsame, fun halike => hsame.mpr halike.leafSets_eq⟩
  · exact .inr ⟨front, failure, back, hentries, profile_of_unread hentries⟩

end Archive

end CpkProvenance
