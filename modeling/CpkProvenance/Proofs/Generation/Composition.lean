import CpkProvenance.Generation.Dependencies
import CpkProvenance.Proofs.Archive.SignerSoundness
import CpkProvenance.Proofs.Document.GraphRun

/-!
# Passes over archives

A pass over many archives is put together from passes over one archive each. It
succeeds if the algorithm is known and all of these succeed, and gives their
records one after the other, those of local archives first. Otherwise it fails as
the first of them that does. An unknown algorithm is a failure before any of them.
-/

namespace CpkProvenance.Document

section Records

variable (files : FileTree)

/-- The archive at a path, as far as a pass looks at it. -/
def archiveAt (path : String) : Except Failure Archive :=
  (Jar.openFile files path).result.map (·.archive Jar.bufferSize)

/-- The record of the file at a path, taken as a local archive. -/
def localRecordAt (path : String) : Except Failure Dependency :=
  archiveAt files path >>= localRecord

/-- The record of the file at a path, taken as a remote archive. -/
def remoteRecordAt (algorithm : Digest.Algorithm) (path : String) : Except Failure Dependency :=
  archiveAt files path >>= remoteRecord algorithm

/-- The records of all files of a pass, or why there is none. -/
def recordsAt (algorithm : Digest.Algorithm) (localPaths remotePaths : List String) :
    List (Except Failure Dependency) :=
  localPaths.map (localRecordAt files) ++ remotePaths.map (remoteRecordAt files algorithm)

theorem isRecordedBy_of_mem_recordsAt {algorithm : Digest.Algorithm}
    {localPaths remotePaths : List String} {r : Dependency}
    (h : .ok r ∈ recordsAt files algorithm localPaths remotePaths) : r.IsRecordedBy algorithm := by
  rcases List.mem_append.mp h with h | h
  · obtain ⟨path, _, hpath⟩ := List.mem_map.mp h
    obtain ⟨a, _, ha⟩ := bind_eq_ok_iff.mp hpath
    exact isRecordedBy_of_localRecord ha
  · obtain ⟨path, _, hpath⟩ := List.mem_map.mp h
    obtain ⟨a, _, ha⟩ := bind_eq_ok_iff.mp hpath
    exact isRecordedBy_of_remoteRecord ha

/-- Reading the file adds nothing but the archive. -/
theorem reached_openFile_bind (path : String) (line : LogLine) (f : Archive → Update Graph Unit)
    (g : Graph) :
    (do let jar ← Update.lift (Jar.openFile files path)
        Update.lift (Traced.write line.level line.message)
        f (jar.archive Jar.bufferSize)).reached g =
      archiveAt files path >>= fun a => (f a).reached g := by
  simp only [Update.reached_lift_bind, Traced.result_write, ok_bind, archiveAt]
  cases (Jar.openFile files path).result <;> rfl

theorem Graph.reached_addLocal (g : Graph) (path : String) :
    (addLocal files path).reached g = (localRecordAt files path).map g.push := by
  rw [addLocal, reached_openFile_bind files path ⟨.info, _⟩, localRecordAt]
  simp only [Update.reached, appendLocal_eq]
  cases archiveAt files path with
  | error failure => rfl
  | ok a =>
      rw [ok_bind, ok_bind]
      cases localRecord a <;> rfl

theorem Graph.reached_addRemote (g : Graph) (path : String) :
    (addRemote files path).reached g = (remoteRecordAt files g.algorithm path).map g.push := by
  rw [addRemote, reached_openFile_bind files path ⟨.info, _⟩, remoteRecordAt]
  simp only [Update.reached, appendRemote_eq]
  cases archiveAt files path with
  | error failure => rfl
  | ok a =>
      rw [ok_bind, ok_bind]
      cases remoteRecord g.algorithm a <;> rfl

end Records

namespace Graph

/-- A loop whose steps each push a record, which is the same whatever the graph holds. -/
theorem reached_forM {step : String → Update Graph Unit}
    (record : Digest.Algorithm → String → Except Failure Dependency)
    (h : ∀ g path, (step path).reached g = (record g.algorithm path).map g.push) (g : Graph)
    (paths : List String) :
    (paths.forM step).reached g = ((paths.map (record g.algorithm)).mapM id).map g.extend := by
  induction paths generalizing g with
  | nil => exact congrArg Except.ok (extend_nil g).symm
  | cons path paths ih =>
      rw [List.forM, Update.reached_bind, h, List.map_cons, List.mapM_cons]
      cases record g.algorithm path with
      | error failure => rfl
      | ok d =>
          rw [ok_map, ok_bind, ih (g.push d), id, ok_bind,
            show (g.push d).algorithm = g.algorithm from rfl]
          cases (paths.map (record g.algorithm)).mapM id with
          | error failure => rfl
          | ok ds => exact congrArg Except.ok (extend_extend g [d] ds)

/-- The archives at some paths are added with their records, if there are all of them. -/
theorem reached_addAll (files : FileTree) (localPaths remotePaths : List String) (g : Graph) :
    (addAll files localPaths remotePaths).reached g =
      ((recordsAt files g.algorithm localPaths remotePaths).mapM id).map g.extend := by
  rw [addAll, Update.reached_bind,
    reached_forM (fun _ => localRecordAt files) (reached_addLocal files), recordsAt,
    List.mapM_append]
  cases (localPaths.map (localRecordAt files)).mapM id with
  | error failure => rfl
  | ok locals =>
      rw [ok_map, ok_bind, ok_bind,
        reached_forM (remoteRecordAt files) (reached_addRemote files),
        show (g.extend locals).algorithm = g.algorithm from rfl]
      cases (remotePaths.map (remoteRecordAt files g.algorithm)).mapM id with
      | error failure => rfl
      | ok remotes => exact congrArg Except.ok (extend_extend g locals remotes)

end Graph

namespace Dependencies

variable (files : FileTree) (localPaths remotePaths : List String) {name : String}

theorem result_generate_of_none (h : Digest.Algorithm.ofName? name = none) :
    (generate files localPaths remotePaths name).result =
      .error (.unsupportedAlgorithm name) := by
  rw [generate, Traced.result_bind, Traced.result_ofExcept, Digest.Algorithm.ofName, h]
  rfl

/-- A pass gives the records of its files, in order, if there are all of them. -/
theorem result_generate_of_some {algorithm : Digest.Algorithm}
    (h : Digest.Algorithm.ofName? name = some algorithm) :
    (generate files localPaths remotePaths name).result =
      ((recordsAt files algorithm localPaths remotePaths).mapM id).map Dependencies.mk := by
  have hreached := Graph.reached_addAll files localPaths remotePaths (Graph.empty algorithm)
  rw [generate, Traced.result_bind, Traced.result_ofExcept,
    Digest.Algorithm.ofName_eq_ok_iff.mpr h, ok_bind]
  calc _ = ((Graph.addAll files localPaths remotePaths).reached (Graph.empty algorithm)).map
        (·.finish) := by
        rw [Traced.result_bind, Update.reached]
        cases (Graph.addAll files localPaths remotePaths (Graph.empty algorithm)).result <;> rfl
    _ = _ := by
        rw [hreached, map_map]
        rfl

/-- The passes over one archive each, in the order in which a pass takes the archives. -/
def passes (name : String) : List (Except Failure Dependencies) :=
  localPaths.map (fun path => (generate files [path] [] name).result) ++
    remotePaths.map fun path => (generate files [] [path] name).result

/-- The document of one record. -/
def single (d : Dependency) : Dependencies := ⟨[d]⟩

/-- A pass over one archive gives the record of that archive. -/
theorem passes_of_some {algorithm : Digest.Algorithm}
    (h : Digest.Algorithm.ofName? name = some algorithm) :
    passes files localPaths remotePaths name =
      (recordsAt files algorithm localPaths remotePaths).map (·.map single) := by
  have hone (x : Except Failure Dependency) :
      ([x].mapM id).map Dependencies.mk = x.map single := by
    cases x <;> rfl
  have hlocal (path : String) : (generate files [path] [] name).result =
      (localRecordAt files path).map single := by
    rw [result_generate_of_some files [path] [] h]
    exact hone _
  have hremote (path : String) : (generate files [] [path] name).result =
      (remoteRecordAt files algorithm path).map single := by
    rw [result_generate_of_some files [] [path] h]
    exact hone _
  simp only [passes, recordsAt, hlocal, hremote, List.map_append, List.map_map]
  rfl

/-- The document of all records of some documents. -/
def join (documents : List Dependencies) : Dependencies :=
  ⟨documents.flatMap (·.dependencies)⟩

theorem join_map_single (records : List Dependency) : join (records.map single) = ⟨records⟩ := by
  rw [join, List.flatMap_map]
  exact congrArg Dependencies.mk (List.flatMap_singleton' records)

/-- A pass joins the documents of the passes over one archive each. -/
theorem result_generate_eq_join {algorithm : Digest.Algorithm}
    (h : Digest.Algorithm.ofName? name = some algorithm) :
    (generate files localPaths remotePaths name).result =
      ((passes files localPaths remotePaths name).mapM id).map join := by
  rw [result_generate_of_some files localPaths remotePaths h,
    passes_of_some files localPaths remotePaths h, mapM_id_map]
  cases (recordsAt files algorithm localPaths remotePaths).mapM id with
  | error failure => rfl
  | ok records =>
      rw [ok_map, ok_map, ok_map, join_map_single]

/-- A pass over one archive that succeeds gives one record. -/
theorem exists_single_of_mem_passes {algorithm : Digest.Algorithm}
    (h : Digest.Algorithm.ofName? name = some algorithm) {document : Dependencies}
    (hdocument : .ok document ∈ passes files localPaths remotePaths name) :
    ∃ r, document = single r := by
  rw [passes_of_some files localPaths remotePaths h] at hdocument
  obtain ⟨x, _, hx⟩ := List.mem_map.mp hdocument
  obtain ⟨r, _, hr⟩ := map_eq_ok_iff.mp hx
  exact ⟨r, hr.symm⟩

/-- **A pass is put together from passes over one archive each.** It succeeds if the algorithm
is known and all of them do, and joins their documents, which have one record each. An unknown
algorithm is the failure whatever the paths are. Otherwise the first pass that fails is. -/
theorem generate_eq_passes (name : String) :
    (∀ d, (generate files localPaths remotePaths name).result = .ok d ↔
      (∃ algorithm, Digest.Algorithm.ofName? name = some algorithm) ∧
        ∃ documents, passes files localPaths remotePaths name = documents.map .ok ∧
          (∀ document ∈ documents, ∃ r, document = single r) ∧ d = join documents) ∧
    (Digest.Algorithm.ofName? name = none →
      (generate files localPaths remotePaths name).result = .error (.unsupportedAlgorithm name)) ∧
    (Digest.Algorithm.ofName? name ≠ none → ∀ failure,
      (generate files localPaths remotePaths name).result = .error failure ↔
        ∃ (front : List Dependencies) (back : List (Except Failure Dependencies)),
          passes files localPaths remotePaths name = front.map .ok ++ .error failure :: back) := by
  cases h : Digest.Algorithm.ofName? name with
  | none =>
      have hresult := result_generate_of_none files localPaths remotePaths h
      refine ⟨fun d => ?_, fun _ => hresult, fun hsome => absurd rfl hsome⟩
      rw [hresult]
      refine iff_of_false (by rintro ⟨⟩) ?_
      rintro ⟨⟨_, ⟨⟩⟩, _⟩
  | some algorithm =>
      have hresult := result_generate_eq_join files localPaths remotePaths h
      refine ⟨fun d => ?_, fun hnone => ?_, fun _ failure => ?_⟩
      · rw [hresult, map_eq_ok_iff]
        constructor
        · rintro ⟨documents, hdocuments, hd⟩
          have hpasses := mapM_id_eq_ok_iff.mp hdocuments
          refine ⟨⟨algorithm, rfl⟩, documents, hpasses, fun document hdocument => ?_, hd.symm⟩
          refine exists_single_of_mem_passes files localPaths remotePaths h ?_
          rw [hpasses]
          exact List.mem_map_of_mem hdocument
        · rintro ⟨_, documents, hpasses, _, hd⟩
          exact ⟨documents, mapM_id_eq_ok_iff.mpr hpasses, hd.symm⟩
      · cases hnone
      · rw [hresult, map_eq_error_iff, mapM_id_eq_error_iff]

section Sample

/-- An unsigned archive beside a directory. -/
def sampleFiles : FileTree :=
  ⟨[(["a.jar"], .file (Jar.stored [("META-INF/MANIFEST.MF",
      Utf8.encode "Bundle-SymbolicName: n\nBundle-Version: 1\n".toList), ("e", [])])),
    (["out"], .directory)], []⟩

def sampleRecord (signers : Signers) : Dependency := ⟨"n", "1", none, signers⟩

set_option maxRecDepth 100000 in
theorem generate_local_sampleFiles : (generate sampleFiles ["a.jar"] [] "SHA1").result =
    .ok (single (sampleRecord .sameAsMe)) := by
  apply toOption_eq_some_iff.mp
  decide +kernel

set_option maxRecDepth 100000 in
theorem generate_remote_sampleFiles : (generate sampleFiles [] ["a.jar"] "SHA1").result =
    .ok (single (sampleRecord (.publicKeyHashes []))) := by
  apply toOption_eq_some_iff.mp
  decide +kernel

theorem generate_missing_sampleFiles : (generate sampleFiles [] ["b.jar"] "SHA1").result =
    .error (.unreadable "b.jar" (some .notFound)) := rfl

/-- Three archives, an unknown algorithm, and an archive that is not there. -/
theorem generate_eq_passes_sampleFiles :
    (generate sampleFiles ["a.jar", "a.jar"] ["a.jar"] "SHA1").result =
      .ok ⟨[sampleRecord .sameAsMe, sampleRecord .sameAsMe, sampleRecord (.publicKeyHashes [])]⟩ ∧
    (generate sampleFiles ["b.jar"] [] "MD5").result = .error (.unsupportedAlgorithm "MD5") ∧
    (generate sampleFiles ["a.jar"] ["b.jar", "a.jar"] "SHA1").result =
      .error (.unreadable "b.jar" (some .notFound)) := by
  have hlocal := generate_local_sampleFiles
  have hremote := generate_remote_sampleFiles
  have hmissing := generate_missing_sampleFiles
  have hsingle (r : Dependency) : ∃ s, single r = single s := ⟨r, rfl⟩
  refine ⟨?_, ?_, ?_⟩
  · have h := generate_eq_passes sampleFiles ["a.jar", "a.jar"] ["a.jar"] "SHA1"
    refine (h.1 _).mpr ⟨⟨.sha1, by decide⟩, [single (sampleRecord .sameAsMe),
      single (sampleRecord .sameAsMe), single (sampleRecord (.publicKeyHashes []))], ?_, ?_, rfl⟩
    · simp [passes, hlocal, hremote]
    · simp [hsingle]
  · exact (generate_eq_passes sampleFiles ["b.jar"] [] "MD5").2.1 (by decide)
  · have h := generate_eq_passes sampleFiles ["a.jar"] ["b.jar", "a.jar"] "SHA1"
    refine (h.2.2 (by decide) _).mpr ⟨[single (sampleRecord .sameAsMe)],
      [.ok (single (sampleRecord (.publicKeyHashes [])))], ?_⟩
    simp [passes, hlocal, hremote, hmissing]

end Sample

end Dependencies

end CpkProvenance.Document
