import CpkProvenance.Document.Graph
import CpkProvenance.Proofs.Archive.Profile

/-!
# Appended archives

A remote archive is appended if it has a profile with an only signer set and the
attributes of a record. The record then holds the hashes of the public keys of
that set. Whether an archive is appended, and with which record, does not depend on
the records that are there already.
-/

namespace CpkProvenance.Document

/-- The hash by which a document knows a signer. -/
def keyHash (algorithm : Digest.Algorithm) (c : Certificate) : HashValue :=
  ⟨algorithm.name, algorithm.digest c.publicKey⟩

theorem mem_publicKeyHashes {algorithm : Digest.Algorithm} {signers : SignerSet} {h : HashValue} :
    h ∈ publicKeyHashes algorithm signers ↔ ∃ c ∈ signers, keyHash algorithm c = h := by
  rw [publicKeyHashes, List.mem_map]
  rfl

theorem Dependency.signers_of_ofArchive {a : Archive} {signers : Signers} {d : Dependency}
    (h : Dependency.ofArchive a signers = .ok d) : d.signers = signers := by
  unfold Dependency.ofArchive at h
  split at h
  · cases h
  · split at h
    · cases h
    · split at h
      · cases h
      · obtain rfl := Except.ok.inj h
        rfl

/-- Records have a name. -/
theorem Dependency.allBlank_name_of_ofArchive {a : Archive} {signers : Signers} {d : Dependency}
    (h : Dependency.ofArchive a signers = .ok d) : Text.allBlank d.name = false := by
  unfold Dependency.ofArchive at h
  split at h
  · cases h
  · split at h
    · cases h
    · next hblank =>
        split at h
        · cases h
        · obtain rfl := Except.ok.inj h
          exact Bool.eq_false_iff.mpr hblank

/-- The record of a local archive. -/
def localRecord (a : Archive) : Except Failure Dependency :=
  Dependency.ofArchive a .sameAsMe

/-- The record of a remote archive. -/
def remoteRecord (algorithm : Digest.Algorithm) (a : Archive) : Except Failure Dependency :=
  a.profile.result >>= fun p =>
    match p.single? with
    | none => .error (.multipleSignerSets a.name p)
    | some s => Dependency.ofArchive a (.publicKeyHashes (publicKeyHashes algorithm s))

theorem remoteRecord_of_ok {a : Archive} {p : Profile} (hp : a.profile.result = .ok p)
    (algorithm : Digest.Algorithm) :
    remoteRecord algorithm a =
      match p.single? with
      | none => .error (.multipleSignerSets a.name p)
      | some s => Dependency.ofArchive a (.publicKeyHashes (publicKeyHashes algorithm s)) := by
  rw [remoteRecord, hp]
  rfl

theorem remoteRecord_eq_ok_iff {algorithm : Digest.Algorithm} {a : Archive} {d : Dependency} :
    remoteRecord algorithm a = .ok d ↔
      ∃ p s, a.profile.result = .ok p ∧ p.single? = some s ∧
        Dependency.ofArchive a (.publicKeyHashes (publicKeyHashes algorithm s)) = .ok d := by
  rw [remoteRecord, bind_eq_ok_iff]
  refine exists_congr fun p => ?_
  cases p.single? with
  | none => simp
  | some s => simp

/-- The line that reports a remote archive without an only signer set. -/
def divisionLines (a : Archive) : List LogLine :=
  match a.profile.result with
  | .error _ => []
  | .ok p =>
      match p.single? with
      | none => [⟨.error, "CPK " ++ a.name ++ " signed by " ++ toString p.size ++
          " sets of signers:\n" ++ p.listing⟩]
      | some _ => []

namespace Graph

/-- A graph with further records. -/
def extend (g : Graph) (records : List Dependency) : Graph :=
  ⟨g.algorithm, g.dependencies ++ records⟩

theorem extend_nil (g : Graph) : g.extend [] = g := by
  rw [extend, List.append_nil]

theorem extend_extend (g : Graph) (front back : List Dependency) :
    (g.extend front).extend back = g.extend (front ++ back) := by
  rw [extend, extend, extend, List.append_assoc]

theorem extend_injective (g : Graph) : Function.Injective g.extend := by
  intro front back h
  exact List.append_cancel_left (congrArg Graph.dependencies h)

theorem push_injective (g : Graph) : Function.Injective g.push := by
  intro d d' h
  exact List.singleton_inj.mp (g.extend_injective h)

/-- The graph after the record of an archive was made out: with the record, or as it was if
there is none. -/
def adopt (g : Graph) : Except Failure Dependency → Graph
  | .error _ => g
  | .ok d => g.push d

theorem adopt_eq_extend (g : Graph) (record : Except Failure Dependency) :
    g.adopt record = g.extend record.toOption.toList := by
  cases record with
  | error failure => exact g.extend_nil.symm
  | ok d => rfl

/-- A record that is made out without a look at entries, and then pushed. -/
theorem push_apply (g : Graph) (x : Except Failure Dependency) :
    (do let d ← Update.lift (Traced.ofExcept x)
        Update.modify (·.push d) : Update Graph Unit) g =
      ⟨⟨[], 0, x.map fun _ => ()⟩, g.adopt x⟩ := by
  cases x <;> rfl

/-- What appending a local archive does. -/
theorem appendLocal_eq (g : Graph) (a : Archive) :
    g.appendLocal a = ⟨⟨[], 0, (localRecord a).map fun _ => ()⟩, g.adopt (localRecord a)⟩ :=
  g.push_apply (localRecord a)

/-- What appending a remote archive does. Its entries are read for the profile, and not
again. -/
theorem appendRemote_eq (g : Graph) (a : Archive) :
    g.appendRemote a = ⟨⟨a.profile.log ++ divisionLines a, a.profile.reads,
      (remoteRecord g.algorithm a).map fun _ => ()⟩, g.adopt (remoteRecord g.algorithm a)⟩ := by
  rw [appendRemote, remoteRecord, divisionLines, Update.bind_apply, Update.lift, Update.reading]
  obtain ⟨log, reads, result⟩ := a.profile
  cases result with
  | error failure =>
      rw [List.append_nil]
      rfl
  | ok p =>
      simp only [Outcome.andThen, ok_bind]
      cases p.single? with
      | none => rfl
      | some s => simp only [Update.gets_bind_apply, push_apply, Nat.add_zero]

/-- A remote archive that is appended has a record, and it is pushed. -/
theorem exists_record_of_appendRemote {g : Graph} {a : Archive}
    (h : (g.appendRemote a).result = .ok ()) :
    ∃ d, remoteRecord g.algorithm a = .ok d ∧ (g.appendRemote a).state = g.push d := by
  rw [appendRemote_eq] at h ⊢
  obtain ⟨d, hd, _⟩ := map_eq_ok_iff.mp h
  exact ⟨d, hd, by rw [hd]; rfl⟩

end Graph

end CpkProvenance.Document
