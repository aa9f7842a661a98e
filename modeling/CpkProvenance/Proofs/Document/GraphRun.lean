import CpkProvenance.Proofs.Document.Graph
import CpkProvenance.Proofs.Document.RoundTrip

/-!
# Runs of a dependency graph

A graph is used step by step: archives are appended to it, and the profiles of
archives are asked for in between. A step that fails leaves the graph as it was,
and the run goes on. No step depends on the records of the steps before it, so each
answers as on an empty graph, and the document at the end lists, in order, what each
adds to one.

Records that were appended satisfy what a reader asks of a document. Nothing is
said here about where the archives come from: any attributes and any entries, read
or not, will do.
-/

namespace CpkProvenance

theorem Digest.Algorithm.name_ne_empty (algorithm : Digest.Algorithm) : algorithm.name ≠ "" := by
  cases algorithm <;> decide

theorem Digest.Algorithm.ofName_eq_ok_iff {name : String} {algorithm : Digest.Algorithm} :
    Digest.Algorithm.ofName name = .ok algorithm ↔
      Digest.Algorithm.ofName? name = some algorithm := by
  rw [Digest.Algorithm.ofName]
  cases Digest.Algorithm.ofName? name <;> simp

namespace Document

/-- What the records of a graph have in common: a name with a character that shows, and
hashes of the graph's algorithm. -/
structure Dependency.IsRecordedBy (algorithm : Digest.Algorithm) (d : Dependency) : Prop where
  name : ∃ c ∈ d.name.toList, Text.isBlank c = false
  hashes : ∀ h ∈ d.signers.hashes, h.algorithm = algorithm.name

theorem Dependency.IsRecordedBy.isReadable {algorithm : Digest.Algorithm} {d : Dependency}
    (h : d.IsRecordedBy algorithm) : d.IsReadable := by
  refine ⟨Text.allBlank_eq_false_iff.mpr h.name, fun hash hhash => ?_⟩
  rw [h.hashes hash hhash]
  exact algorithm.name_ne_empty

theorem isRecordedBy_of_localRecord {algorithm : Digest.Algorithm} {a : Archive} {d : Dependency}
    (h : localRecord a = .ok d) : d.IsRecordedBy algorithm := by
  refine ⟨Text.allBlank_eq_false_iff.mp (Dependency.allBlank_name_of_ofArchive h), ?_⟩
  rw [Dependency.signers_of_ofArchive h]
  intro hash hhash
  exact absurd hhash List.not_mem_nil

theorem isRecordedBy_of_remoteRecord {algorithm : Digest.Algorithm} {a : Archive} {d : Dependency}
    (h : remoteRecord algorithm a = .ok d) : d.IsRecordedBy algorithm := by
  obtain ⟨_, s, _, _, hs⟩ := remoteRecord_eq_ok_iff.mp h
  refine ⟨Text.allBlank_eq_false_iff.mp (Dependency.allBlank_name_of_ofArchive hs), ?_⟩
  rw [Dependency.signers_of_ofArchive hs]
  intro hash hhash
  obtain ⟨c, _, rfl⟩ := mem_publicKeyHashes.mp hhash
  rfl

/-- A document of such records is read back. -/
theorem Dependencies.ofXml_toXml_of_isRecordedBy {algorithm : Digest.Algorithm} {d : Dependencies}
    (h : ∀ r ∈ d.dependencies, r.IsRecordedBy algorithm) : Dependencies.ofXml d.toXml = .ok d :=
  Dependencies.ofXml_toXml_eq_ok_iff.mpr ⟨rfl, fun r hr => (h r hr).isReadable⟩

namespace Graph

/-- The records that a step leaves in an empty graph. -/
def Step.records (algorithm : Digest.Algorithm) (s : Step) : List Dependency :=
  ((empty algorithm).act s).state.finish.dependencies

section Step

/-- What a step tells, whatever the graph holds. -/
def Step.trace (algorithm : Digest.Algorithm) : Step → Traced (Option Profile)
  | .appendLocal a => ⟨[], 0, (localRecord a).map fun _ => none⟩
  | .appendRemote a => ⟨a.profile.log ++ divisionLines a, a.profile.reads,
      (remoteRecord algorithm a).map fun _ => none⟩
  | .profile a => ⟨a.profile.log, a.profile.reads, a.profile.result.map some⟩

/-- What a step adds, whatever the graph holds. -/
def Step.additions (algorithm : Digest.Algorithm) : Step → List Dependency
  | .appendLocal a => (localRecord a).toOption.toList
  | .appendRemote a => (remoteRecord algorithm a).toOption.toList
  | .profile _ => []

/-- What a step does. What follows is about traces and additions alone. -/
theorem act_eq (g : Graph) (s : Step) :
    g.act s = ⟨s.trace g.algorithm, g.extend (s.additions g.algorithm)⟩ := by
  cases s with
  | appendLocal a =>
      rw [act, Update.bind_pure_apply, appendLocal_eq, adopt_eq_extend, map_map]
      rfl
  | appendRemote a =>
      rw [act, Update.bind_pure_apply, appendRemote_eq, adopt_eq_extend, map_map]
      rfl
  | profile a =>
      rw [act, Update.bind_pure_apply, Step.additions, extend_nil]
      rfl

theorem Step.records_eq_additions (algorithm : Digest.Algorithm) (s : Step) :
    s.records algorithm = s.additions algorithm := by
  rw [records, act_eq]
  rfl

theorem Step.additions_of_failure {algorithm : Digest.Algorithm} {s : Step} {failure : Failure}
    (h : (s.trace algorithm).result = .error failure) : s.additions algorithm = [] := by
  cases s with
  | appendLocal a =>
      rw [additions, map_eq_error_iff.mp h]
      rfl
  | appendRemote a =>
      rw [additions, map_eq_error_iff.mp h]
      rfl
  | profile a => rfl

/-- A step that is to add a record adds one if it succeeds. -/
theorem Step.exists_additions_of_ok {algorithm : Digest.Algorithm} {s : Step} {a : Archive}
    (hs : s = .appendLocal a ∨ s = .appendRemote a) {answer : Option Profile}
    (h : (s.trace algorithm).result = .ok answer) : ∃ d, s.additions algorithm = [d] := by
  have hrecord {x : Except Failure Dependency} {f : Dependency → Option Profile}
      (hx : x.map f = .ok answer) : ∃ d, x.toOption.toList = [d] := by
    obtain ⟨d, rfl, _⟩ := map_eq_ok_iff.mp hx
    exact ⟨d, rfl⟩
  obtain rfl | rfl := hs
  · exact hrecord h
  · exact hrecord h

theorem Step.isRecordedBy_of_mem_additions {algorithm : Digest.Algorithm} {s : Step}
    {d : Dependency} (h : d ∈ s.additions algorithm) : d.IsRecordedBy algorithm := by
  cases s with
  | appendLocal a =>
      rw [additions, Option.mem_toList, toOption_eq_some_iff] at h
      exact isRecordedBy_of_localRecord h
  | appendRemote a =>
      rw [additions, Option.mem_toList, toOption_eq_some_iff] at h
      exact isRecordedBy_of_remoteRecord h
  | profile a => exact absurd h List.not_mem_nil

theorem signers_of_mem_records_appendLocal {algorithm : Digest.Algorithm} {a : Archive}
    {d : Dependency} (h : d ∈ (Step.appendLocal a).records algorithm) : d.signers = .sameAsMe := by
  rw [Step.records_eq_additions, Step.additions, Option.mem_toList, toOption_eq_some_iff] at h
  exact Dependency.signers_of_ofArchive h

end Step

section Run

/-- The run lemma: each step answers and adds what it does on its own. -/
theorem run_eq (g : Graph) (steps : List Step) :
    g.run steps = ⟨steps.map (·.trace g.algorithm),
      g.extend (steps.flatMap (·.additions g.algorithm))⟩ := by
  induction steps generalizing g with
  | nil => exact congrArg (Run.mk []) g.extend_nil.symm
  | cons s steps ih =>
      rw [run, act_eq, ih, extend_extend, List.flatMap_cons]
      rfl

/-- What one step does in the middle of a run. -/
structure IsIndependent (algorithm : Digest.Algorithm) (g : Graph) (s : Step) : Prop where
  /-- It tells what it tells on an empty graph: the same lines, reads and result. -/
  answered : (g.act s).toTraced = ((empty algorithm).act s).toTraced
  /-- It adds what it adds to an empty graph, after what is there already. -/
  added : (g.act s).state = ⟨algorithm, g.dependencies ++ s.records algorithm⟩
  /-- If it fails, the graph is as it was. -/
  kept : ∀ failure, (g.act s).result = .error failure → (g.act s).state = g
  /-- A profile leaves the graph as it was. -/
  asked : ∀ a, s = .profile a → (g.act s).state = g
  /-- If an archive is appended, there is one record of it. -/
  recorded : ∀ a, s = .appendLocal a ∨ s = .appendRemote a → ∀ answer,
    (g.act s).result = .ok answer → ∃ d, s.records algorithm = [d]

theorem isIndependent {algorithm : Digest.Algorithm} {g : Graph} (h : g.algorithm = algorithm)
    (s : Step) : IsIndependent algorithm g s := by
  subst h
  have hempty : (empty g.algorithm).act s =
      ⟨s.trace g.algorithm, (empty g.algorithm).extend (s.additions g.algorithm)⟩ :=
    act_eq (empty g.algorithm) s
  refine ⟨?_, ?_, fun failure hfailure => ?_, fun a ha => ?_, fun a ha answer hanswer => ?_⟩
  · rw [act_eq, hempty]
  · rw [act_eq, Step.records_eq_additions]
    rfl
  · rw [act_eq] at hfailure ⊢
    rw [Step.additions_of_failure hfailure, extend_nil]
  · rw [act_eq, ha, Step.additions, extend_nil]
  · rw [act_eq] at hanswer
    rw [Step.records_eq_additions]
    exact Step.exists_additions_of_ok ha hanswer

/-- **The document of a run** lists the records of the steps that succeeded, in order, each as
the step leaves it in an empty graph, and every step answers as on an empty graph. Steps that
fail and profiles leave no trace in the document. All records have a name, all hashes the name of
the algorithm, and the document is read back. Local archives are recorded without a look at
their entries. -/
theorem finish_run (algorithm : Digest.Algorithm) (steps : List Step) :
    ((empty algorithm).run steps).graph.finish.dependencies =
      steps.flatMap (·.records algorithm) ∧
    ((empty algorithm).run steps).replies =
      steps.map (fun s => ((empty algorithm).act s).toTraced) ∧
    (∀ front s back, steps = front ++ s :: back →
      IsIndependent algorithm ((empty algorithm).run front).graph s) ∧
    (∀ r ∈ ((empty algorithm).run steps).graph.finish.dependencies, r.IsRecordedBy algorithm) ∧
    (∀ (g : Graph) (a : Archive), (g.appendLocal a).reads = 0 ∧
      (∀ entries, g.appendLocal { a with entries } = g.appendLocal a) ∧
      ∀ d ∈ (Step.appendLocal a).records algorithm, d.signers = .sameAsMe) ∧
    Dependencies.ofXml ((empty algorithm).run steps).graph.finish.toXml =
      .ok ((empty algorithm).run steps).graph.finish := by
  have hrun := run_eq (empty algorithm) steps
  have hrecorded : ∀ r ∈ ((empty algorithm).run steps).graph.finish.dependencies,
      r.IsRecordedBy algorithm := by
    rw [hrun]
    intro r hr
    obtain ⟨s, _, hs⟩ := List.mem_flatMap.mp hr
    exact Step.isRecordedBy_of_mem_additions hs
  refine ⟨?_, ?_, fun front s back _ => isIndependent ?_ s, hrecorded,
    fun g a => ⟨?_, fun entries => rfl, fun d => signers_of_mem_records_appendLocal⟩, ?_⟩
  · simp only [hrun, Step.records_eq_additions]
    rfl
  · simp only [hrun, act_eq]
  · rw [run_eq]
    rfl
  · rw [appendLocal_eq]
  · exact Dependencies.ofXml_toXml_of_isRecordedBy hrecorded

end Run

section Sample

/-- The encoding of a certificate. -/
def sampleCertificate : Bytes :=
  [0x30, 0x47, 0x30, 0x3B, 2, 1, 1, 0x30, 5, 6, 3, 0x2A, 3, 4, 0x30, 0, 0x30, 0x1E,
    0x17, 13, 0x37, 0x30, 0x30, 0x31, 0x30, 0x31, 0x30, 0x30, 0x30, 0x30, 0x30, 0x30, 0x5A,
    0x17, 13, 0x37, 0x30, 0x30, 0x31, 0x30, 0x31, 0x30, 0x30, 0x30, 0x30, 0x30, 0x30, 0x5A,
    0x30, 0, 0x30, 0x0B, 0x30, 5, 6, 3, 0x2A, 3, 4, 3, 2, 0, 1, 0x30, 5, 6, 3, 0x2A, 3, 4, 3, 1, 0]

def sampleAttributes : Manifest.Attributes :=
  [⟨symbolicNameHeader, "n"⟩, ⟨versionHeader, "1"⟩]

/-- An archive with an entry that cannot be read. -/
def unreadableArchive : Archive :=
  ⟨"unreadable.jar", sampleAttributes, [.error (.unreadable "unreadable.jar" none)]⟩

/-- An archive whose only entry is signed by the owner of the certificate. -/
def signedArchive : Archive :=
  ⟨"signed.jar", sampleAttributes,
    [.ok ⟨"e", false, (Certificate.ofDer? sampleCertificate).toList.map fun c => ⟨[c]⟩⟩]⟩

/-- Steps of all kinds, of which the second and the last fail. -/
def sampleSteps : List Step :=
  [.appendLocal unreadableArchive, .appendRemote unreadableArchive, .profile signedArchive,
    .appendRemote signedArchive, .appendLocal ⟨"nameless.jar", [], []⟩]

/-- Two of the steps add a record, one of them with a hash. -/
theorem finish_run_sampleSteps :
    ((empty .sha1).run sampleSteps).graph.finish.dependencies.map (·.signers.hashes.length) =
      [0, 1] ∧
    ((empty .sha1).run sampleSteps).replies.map (·.reads) = [0, 0, 1, 1, 0] ∧
    IsIndependent .sha1 ((empty .sha1).run [.appendLocal unreadableArchive]).graph
      (.appendRemote unreadableArchive) ∧
    Dependencies.ofXml ((empty .sha1).run sampleSteps).graph.finish.toXml =
      .ok ((empty .sha1).run sampleSteps).graph.finish := by
  obtain ⟨_, _, hindependent, _, _, hread⟩ := finish_run .sha1 sampleSteps
  exact ⟨by decide +kernel, by decide +kernel,
    hindependent [.appendLocal unreadableArchive] _ _ rfl, hread⟩

end Sample

end Graph

end Document

end CpkProvenance
