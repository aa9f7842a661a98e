import Mathlib.Data.Fintype.Card
import Mathlib.Data.List.FinRange
import Mathlib.Logic.Relation
import CpkProvenance.Proofs.Signing.BlockSigners

/-!
# Paths of certificates

The path of a certificate goes from each certificate to its issuer. Names alone tie the two
together, so a block can hold several certificates for one issuer, or certificates that issued
each other in a circle. The search takes the first certificate of the right name that is not
on the path yet, and ends at a self-issued certificate or where none is left.

A path is given here by indices into the certificates of the block. The search is described
twice: by its rounds, which extend a path at its end, and by what holds of the whole path. The
two agree, and the path that is computed is the only one that cannot be extended.
-/

namespace CpkProvenance.Signing

variable (certificates : List X509.Certificate)

/-- The certificate at `j` bears the name of the issuer of the one at `i`, and is not on the
path yet. -/
def IsCandidate (path : List (Fin certificates.length)) (i j : Fin certificates.length) : Prop :=
  j ∉ path ∧ certificates[j].subject = certificates[i].issuer

/-- The candidate that stands first in the block. -/
def IsNext (path : List (Fin certificates.length)) (i j : Fin certificates.length) : Prop :=
  IsCandidate certificates path i j ∧ ∀ k, IsCandidate certificates path i k → j ≤ k

def IsSelfIssued (i : Fin certificates.length) : Prop :=
  certificates[i].subject = certificates[i].issuer

section Choice

/-- What the search can still choose from. -/
def unused (path : List (Fin certificates.length)) : List (Fin certificates.length) :=
  (List.finRange certificates.length).filter (· ∉ path)

/-- The certificate at `k` bears the name of the issuer of the one at `i`. -/
def isIssuer (i k : Fin certificates.length) : Bool :=
  certificates[k].subject == certificates[i].issuer

variable {certificates} {i j : Fin certificates.length} {path : List (Fin certificates.length)}

theorem isCandidate_iff :
    IsCandidate certificates path i j ↔
      j ∈ unused certificates path ∧ isIssuer certificates i j = true := by
  simp [IsCandidate, unused, isIssuer]

/-- The first that is found among the unused ones is the first candidate in the block. -/
theorem isNext_of_find?_unused
    (h : (unused certificates path).find? (isIssuer certificates i) = some j) :
    IsNext certificates path i j := by
  have hsorted : (unused certificates path).Pairwise (· < ·) :=
    (List.pairwise_lt_finRange _).filter _
  obtain ⟨hj, front, rest, hunused, hfront⟩ := List.find?_eq_some_iff_append.mp h
  refine ⟨isCandidate_iff.mpr ⟨List.mem_of_find?_eq_some h, hj⟩, ?_⟩
  intro k hk
  obtain ⟨hmem, hsubject⟩ := isCandidate_iff.mp hk
  rw [hunused, List.mem_append, List.mem_cons] at hmem
  rcases hmem with hbefore | rfl | hafter
  · have hother := hfront k hbefore
    simp [hsubject] at hother
  · exact le_rfl
  · rw [hunused, List.pairwise_append, List.pairwise_cons] at hsorted
    exact (hsorted.2.1.1 k hafter).le

theorem find?_unused_eq_none_iff :
    (unused certificates path).find? (isIssuer certificates i) = none ↔
      ∀ j, ¬ IsCandidate certificates path i j := by
  simp [isCandidate_iff]

/-- Where there is a candidate, there is a first one. -/
theorem exists_isNext (h : IsCandidate certificates path i j) :
    ∃ k, IsNext certificates path i k := by
  cases hfind : (unused certificates path).find? (isIssuer certificates i) with
  | none => exact absurd h (find?_unused_eq_none_iff.mp hfind j)
  | some k => exact ⟨k, isNext_of_find?_unused hfind⟩

theorem eraseP_unused (h : (unused certificates path).find? (isIssuer certificates i) = some j) :
    (unused certificates path).eraseP (isIssuer certificates i) =
      unused certificates (path ++ [j]) := by
  have hnodup : (unused certificates path).Nodup := (List.nodup_finRange _).filter _
  have herase : unused certificates (path ++ [j]) = (unused certificates path).erase j := by
    rw [hnodup.erase_eq_filter, unused, unused, List.filter_filter]
    congr 1
    ext k
    by_cases hk : k = j <;> simp [hk]
  obtain ⟨hj, front, rest, hunused, hfront⟩ := List.find?_eq_some_iff_append.mp h
  have hfront : ∀ k ∈ front, ¬ isIssuer certificates i k = true := by
    simpa using hfront
  have hj' : j ∉ front := fun hmem => hfront j hmem hj
  rw [herase, hunused, List.eraseP_append_right _ hfront, List.eraseP_cons_of_pos hj,
    List.erase_append_right _ hj', List.erase_cons_head]

end Choice

section Rounds

/-- One round of the search. -/
inductive Extends :
    List (Fin certificates.length) → List (Fin certificates.length) → Prop
  | next (front : List (Fin certificates.length)) (i j : Fin certificates.length) :
      ¬ IsSelfIssued certificates i → IsNext certificates (front ++ [i]) i j →
      Extends (front ++ [i]) (front ++ [i, j])

/-- A path as the search builds it from the leaf. -/
structure IsPath (leaf : Fin certificates.length) (path : List (Fin certificates.length)) :
    Prop where
  head : path.head? = some leaf
  nodup : path.Nodup
  next : ∀ front i j rest, path = front ++ i :: j :: rest →
    IsNext certificates (front ++ [i]) i j
  inner : ∀ front i j rest, path = front ++ i :: j :: rest → ¬ IsSelfIssued certificates i

/-- A path that ends where nothing can follow. -/
structure IsMaximalPath (leaf : Fin certificates.length)
    (path : List (Fin certificates.length)) : Prop extends IsPath certificates leaf path where
  length_le : path.length ≤ certificates.length
  last : ∀ front i, path = front ++ [i] →
    IsSelfIssued certificates i ∨ ∀ j, ¬ IsCandidate certificates path i j

variable {certificates} {leaf i j k : Fin certificates.length}
  {front path stage : List (Fin certificates.length)}

/-- A round starts at the end of a path that is not self-issued, and adds the next
certificate. -/
theorem extends_concat_iff : Extends certificates (front ++ [i]) stage ↔
    ¬ IsSelfIssued certificates i ∧
      ∃ j, IsNext certificates (front ++ [i]) i j ∧ stage = front ++ [i, j] := by
  constructor
  · intro h
    generalize hpath : front ++ [i] = path at h
    obtain ⟨front', i', j, hself, hnext⟩ := h
    obtain ⟨rfl, hi⟩ := List.append_inj' hpath rfl
    obtain rfl := List.singleton_inj.mp hi
    exact ⟨hself, j, hnext, rfl⟩
  · rintro ⟨hself, j, hnext, rfl⟩
    exact .next front i j hself hnext

theorem IsNext.unique (hj : IsNext certificates path i j) (hk : IsNext certificates path i k) :
    j = k :=
  le_antisymm (hj.2 k hk.1) (hk.2 j hj.1)

theorem IsPath.singleton : IsPath certificates leaf [leaf] := by
  have hshort (front : List (Fin certificates.length)) (i j) (rest) :
      [leaf] ≠ front ++ i :: j :: rest := by
    intro h
    have hlength := congrArg List.length h
    simp only [List.length_cons, List.length_nil, List.length_append] at hlength
    omega
  refine ⟨rfl, List.nodup_singleton leaf, ?_, ?_⟩
  · intro front i j rest h
    exact absurd h (hshort front i j rest)
  · intro front i j rest h
    exact absurd h (hshort front i j rest)

/-- The beginning of a path is a path. -/
theorem IsPath.of_append {rest : List (Fin certificates.length)} (hne : path ≠ [])
    (h : IsPath certificates leaf (path ++ rest)) : IsPath certificates leaf path := by
  have hcut (front : List (Fin certificates.length)) (i j) (tail)
      (hpath : path = front ++ i :: j :: tail) : path ++ rest = front ++ i :: j :: (tail ++ rest) := by
    simp [hpath]
  refine ⟨?_, h.nodup.of_append_left, ?_, ?_⟩
  · rw [← h.head, List.head?_append_of_ne_nil _ hne]
  · intro front i j tail hpath
    exact h.next front i j _ (hcut front i j tail hpath)
  · intro front i j tail hpath
    exact h.inner front i j _ (hcut front i j tail hpath)

/-- A round makes a path of a path. -/
theorem IsPath.extends (h : IsPath certificates leaf path)
    (hround : Extends certificates path stage) : IsPath certificates leaf stage := by
  obtain ⟨last, i, j, hself, hnext⟩ := hround
  -- two neighbours on the longer path are neighbours on the shorter one, or its end and `j`
  have hcut (front : List (Fin certificates.length)) (a b) (rest)
      (hstage : last ++ [i, j] = front ++ a :: b :: rest) :
      (∃ rest, last ++ [i] = front ++ a :: b :: rest) ∨ front = last ∧ a = i ∧ b = j := by
    induction rest using List.reverseRecOn with
    | nil =>
        have hends : last = front ∧ [i, j] = [a, b] := List.append_inj' hstage rfl
        simp_all
    | append_singleton rest c _ =>
        have hstage : (last ++ [i]) ++ [j] = (front ++ a :: b :: rest) ++ [c] := by
          simpa using hstage
        exact .inl ⟨rest, (List.append_inj' hstage rfl).1⟩
  refine ⟨?_, ?_, ?_, ?_⟩
  · have hhead := h.head
    rw [List.head?_append] at hhead ⊢
    simpa using hhead
  · have hj : j ∉ last ++ [i] := hnext.1.1
    have happend : last ++ [i, j] = (last ++ [i]).concat j := by simp
    rw [happend]
    exact h.nodup.concat hj
  · intro front a b rest hstage
    rcases hcut front a b rest hstage with ⟨tail, hpath⟩ | ⟨rfl, rfl, rfl⟩
    · exact h.next front a b tail hpath
    · exact hnext
  · intro front a b rest hstage
    rcases hcut front a b rest hstage with ⟨tail, hpath⟩ | ⟨rfl, rfl, rfl⟩
    · exact h.inner front a b tail hpath
    · exact hself

/-- The paths from a leaf are exactly what the rounds make of the leaf alone. -/
theorem isPath_iff_run : IsPath certificates leaf path ↔
    Relation.ReflTransGen (Extends certificates) [leaf] path := by
  constructor
  · intro h
    induction path using List.reverseRecOn with
    | nil => cases h.head
    | append_singleton path j ih =>
        rcases List.eq_nil_or_concat' path with rfl | ⟨front, i, rfl⟩
        · obtain rfl : j = leaf := Option.some.inj h.head
          exact .refl
        · have hshorter := h.of_append (by simp)
          have happend : front ++ [i] ++ [j] = front ++ i :: j :: [] := by simp
          apply (ih hshorter).tail
          rw [happend]
          exact .next front i j (h.inner front i j [] happend) (h.next front i j [] happend)
  · intro h
    induction h with
    | refl => exact .singleton
    | tail _ hround ih => exact ih.extends hround

theorem Extends.isPrefix (h : Extends certificates path stage) : path <+: stage := by
  obtain ⟨front, i, j, -, -⟩ := h
  exact ⟨[j], by simp⟩

theorem extends_rightUnique : Relator.RightUnique (Extends certificates) := by
  intro path first second hfirst hsecond
  obtain ⟨front, i, j, -, hnext⟩ := hfirst
  obtain ⟨-, k, hk, rfl⟩ := extends_concat_iff.mp hsecond
  rw [hnext.unique hk]

theorem isPrefix_of_run (h : Relation.ReflTransGen (Extends certificates) path stage) :
    path <+: stage := by
  induction h with
  | refl => exact List.prefix_rfl
  | tail _ hround ih => exact ih.trans hround.isPrefix

/-- No round extends a maximal path. -/
theorem IsMaximalPath.not_extends (h : IsMaximalPath certificates leaf path) :
    ¬ Extends certificates path stage := by
  intro hround
  obtain ⟨front, i, j, hself, hnext⟩ := hround
  rcases h.last front i rfl with hi | hnone
  · exact hself hi
  · exact hnone j hnext.1

theorem IsPath.isMaximalPath (h : IsPath certificates leaf path)
    (hend : ∀ stage, ¬ Extends certificates path stage) :
    IsMaximalPath certificates leaf path := by
  refine ⟨h, ?_, ?_⟩
  · simpa using h.nodup.length_le_card
  · intro front i hpath
    by_cases hself : IsSelfIssued certificates i
    · exact .inl hself
    · right
      intro j hj
      obtain ⟨k, hk⟩ := exists_isNext hj
      subst hpath
      exact hend _ (.next front i k hself hk)

/-- Every path is a beginning of a maximal path from the same leaf. -/
theorem IsMaximalPath.isPrefix (h : IsMaximalPath certificates leaf path)
    (hstage : IsPath certificates leaf stage) : stage <+: path := by
  have hrun := isPath_iff_run.mp h.toIsPath
  rcases Relation.ReflTransGen.total_of_right_unique extends_rightUnique
    (isPath_iff_run.mp hstage) hrun with hto | hfrom
  · exact isPrefix_of_run hto
  · rcases Relation.ReflTransGen.cases_head hfrom with rfl | ⟨further, hround, -⟩
    · exact List.prefix_rfl
    · exact absurd hround h.not_extends

theorem IsMaximalPath.unique (h : IsMaximalPath certificates leaf path)
    (hstage : IsMaximalPath certificates leaf stage) : stage = path :=
  (h.isPrefix hstage.toIsPath).eq_of_length_le (hstage.isPrefix h.toIsPath).length_le

end Rounds

section Search

/-- A place in the block with the certificate there. -/
def entry (i : Fin certificates.length) : Nat × X509.Certificate :=
  (i, certificates[i])

variable {certificates} {i : Fin certificates.length}

theorem find?_map_entry (places : List (Fin certificates.length)) :
    (places.map (entry certificates)).find? (fun p => p.2.subject == certificates[i].issuer) =
      (places.find? (isIssuer certificates i)).map (entry certificates) := by
  rw [List.find?_map]
  rfl

theorem eraseP_map_entry (places : List (Fin certificates.length)) :
    (places.map (entry certificates)).eraseP (fun p => p.2.subject == certificates[i].issuer) =
      (places.eraseP (isIssuer certificates i)).map (entry certificates) := by
  rw [List.eraseP_map]
  rfl

/-- From any path, the search goes on as the rounds do and leaves nothing to extend. -/
theorem exists_run_issuers (front : List (Fin certificates.length)) (i : Fin certificates.length) :
    ∃ rest, issuers certificates[i] ((unused certificates (front ++ [i])).map (entry certificates)) =
        rest.map (entry certificates) ∧
      Relation.ReflTransGen (Extends certificates) (front ++ [i]) (front ++ i :: rest) ∧
      ∀ stage, ¬ Extends certificates (front ++ i :: rest) stage := by
  generalize hc : certificates[i] = c
  generalize hpool : (unused certificates (front ++ [i])).map (entry certificates) = pool
  fun_induction issuers c pool generalizing front i with
  | case1 c pool hself =>
      subst hc
      refine ⟨[], rfl, .refl, ?_⟩
      intro stage hround
      exact (extends_concat_iff.mp hround).1 (beq_iff_eq.mp hself)
  | case2 c pool hself hnone =>
      subst hc hpool
      refine ⟨[], rfl, .refl, ?_⟩
      intro stage hround
      obtain ⟨-, j, hj, -⟩ := extends_concat_iff.mp hround
      rw [find?_map_entry, Option.map_eq_none_iff, find?_unused_eq_none_iff] at hnone
      exact hnone j hj.1
  | case3 c pool hself p hfind ih =>
      subst hc hpool
      rw [find?_map_entry, Option.map_eq_some_iff] at hfind
      obtain ⟨j, hfind, rfl⟩ := hfind
      rw [eraseP_map_entry, eraseP_unused hfind] at ih ⊢
      obtain ⟨rest, hissuers, hrun, hend⟩ := ih (front ++ [i]) j rfl rfl
      have hround : Extends certificates (front ++ [i]) (front ++ [i, j]) := by
        apply Extends.next front i j _ (isNext_of_find?_unused hfind)
        simpa [X509.Certificate.isSelfIssued, IsSelfIssued] using hself
      refine ⟨j :: rest, ?_, ?_, ?_⟩
      · rw [hissuers, List.map_cons]
      · apply Relation.ReflTransGen.head hround
        simpa using hrun
      · simpa using hend

theorem zipIdx_eq_map_entry :
    certificates.zipIdx.map (fun p => (p.2, p.1)) =
      (List.finRange certificates.length).map (entry certificates) := by
  apply List.ext_getElem
  · simp
  · intro k hk hk'
    simp [entry]

theorem find?_finRange (leaf : Fin certificates.length) :
    (List.finRange certificates.length).find? (fun i => i.val == leaf.val) = some leaf := by
  cases hfind : (List.finRange certificates.length).find? (fun i => i.val == leaf.val) with
  | none =>
      have hleaf := List.find?_eq_none.mp hfind leaf (List.mem_finRange leaf)
      simp at hleaf
  | some i =>
      have hi := List.find?_some hfind
      rw [Fin.ext (beq_iff_eq.mp hi)]

/-- The search starts with the leaf, and all other certificates are unused. -/
theorem certificatePath_eq (leaf : Fin certificates.length) :
    certificatePath certificates leaf = entry certificates leaf ::
      issuers certificates[leaf] ((unused certificates [leaf]).map (entry certificates)) := by
  have hfirst : ((List.finRange certificates.length).map (entry certificates)).find?
      (·.1 == leaf.val) = some (entry certificates leaf) := by
    have hplaces := find?_finRange leaf
    rw [List.find?_map]
    exact congrArg (Option.map (entry certificates)) hplaces
  have hothers : ((List.finRange certificates.length).map (entry certificates)).filter
      (·.1 != leaf.val) = (unused certificates [leaf]).map (entry certificates) := by
    rw [List.filter_map, unused]
    congr 2
    ext i
    rw [Bool.eq_iff_iff]
    simp [entry, Fin.ext_iff]
  unfold certificatePath
  dsimp only
  rw [zipIdx_eq_map_entry, hfirst]
  exact congrArg (fun pool => entry certificates leaf :: issuers certificates[leaf] pool) hothers

/-- For every list of certificates, whoever issued them, and every leaf among them, the search
comes to an end after finitely many rounds, and its result is the one maximal path: no
certificate stands on it twice, each next one is the first in the block that is unused and
bears its predecessor's issuer as its subject, and only at the end is a certificate self-issued
or without a certificate to follow it. All that the rounds can make of the leaf is a beginning
of that path. -/
theorem certificatePath_isMaximalPath (certificates : List X509.Certificate)
    (leaf : Fin certificates.length) :
    ∃ path : List (Fin certificates.length),
      certificatePath certificates leaf = path.map (fun i => (↑i, certificates[i])) ∧
        IsMaximalPath certificates leaf path ∧
        (∀ other, IsMaximalPath certificates leaf other → other = path) ∧
        Relation.ReflTransGen (Extends certificates) [leaf] path ∧
        ∀ stage, Relation.ReflTransGen (Extends certificates) [leaf] stage → stage <+: path := by
  obtain ⟨rest, hissuers, hrun, hend⟩ := exists_run_issuers [] leaf
  have hmaximal : IsMaximalPath certificates leaf (leaf :: rest) :=
    (isPath_iff_run.mpr hrun).isMaximalPath hend
  refine ⟨leaf :: rest, ?_, hmaximal, ?_, hrun, ?_⟩
  · rw [certificatePath_eq]
    exact congrArg (entry certificates leaf :: ·) hissuers
  · intro other hother
    exact hmaximal.unique hother
  · intro stage hstage
    exact hmaximal.isPrefix (isPath_iff_run.mpr hstage)

/-- A certificate with the given names. -/
def certificateFor (subject issuer : UInt8) : X509.Certificate :=
  { issuedCertificate subject [] with issuer := sampleName issuer }

-- four certificates that issued each other in a circle, two of them for one name
example : (certificatePath [certificateFor 66 65, certificateFor 65 67, certificateFor 65 66,
    certificateFor 67 66] 2).map Prod.fst = [2, 0, 1, 3] := by
  cbv

end Search

end CpkProvenance.Signing
