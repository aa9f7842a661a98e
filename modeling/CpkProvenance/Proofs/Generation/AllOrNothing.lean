import CpkProvenance.Generation.Output
import CpkProvenance.Proofs.Bytes.Utf8
import CpkProvenance.Proofs.FileTree
import CpkProvenance.Proofs.Generation.Composition

/-!
# Passes that write

A pass that generates a document and writes it either fails and leaves all files as
they were, or replaces one file by the document. It does not matter what fails: an
archive, the path, or the device at any stage of the replacement. Which file it is,
and what the document says, is settled by the files before the pass, also where the
file is one that the pass reads. A written document of dependencies is read back as
what was generated.
-/

namespace CpkProvenance

theorem FileTree.isDirectory_iff {t : FileTree} {path : String} :
    t.isDirectory path = true ↔ t.lookup path = .ok .directory := by
  rw [isDirectory]
  split
  · next h => simp [h]
  · next h => exact iff_of_false Bool.false_ne_true h

namespace Document

section Output

variable {files : FileTree} {output : String}

theorem resolveOutput_of_directory (h : files.lookup output = .ok .directory)
    (fileName : String) : resolveOutput files output fileName = Path.join output fileName := by
  rw [resolveOutput, if_pos (FileTree.isDirectory_iff.mpr h)]

theorem resolveOutput_of_not_directory (h : files.lookup output ≠ .ok .directory)
    (fileName : String) : resolveOutput files output fileName = output := by
  rw [resolveOutput, if_neg fun hd => h (FileTree.isDirectory_iff.mp hd)]

theorem replaceText_cases (files : FileTree) (faults : FileTree.Faults)
    (path root text note : String) :
    (∃ failure, (replaceText faults path root text note files).result = .error failure ∧
      (replaceText faults path root text note files).state = files ∧
      ¬ (faults.IsClear ∧ ∃ place, files.IsReplaceable path place)) ∨
    ∃ place, (replaceText faults path root text note files).result = .ok path ∧
      (replaceText faults path root text note files).state =
        files.insert place (.file (Utf8.encode text.toList)) ∧
      faults.IsClear ∧ files.IsReplaceable path place := by
  delta replaceText
  rcases files.replace_cases faults path (Utf8.encode text.toList) with
    ⟨e, hreplace, hnone⟩ | ⟨place, hreplace, hplace⟩
  · rw [hreplace]
    exact .inl ⟨_, rfl, rfl, hnone⟩
  · rw [hreplace]
    exact .inr ⟨place, rfl, rfl, hplace⟩

end Output

/-- The text of a document was written to a path: to the output, or to a file of the given name
in it if that is a directory. Nothing else has changed. -/
structure IsWritten (before after : FileTree) (output fileName text path : String)
    (place : Location) : Prop where
  replaced : before.IsReplaced after path (Utf8.encode text.toList) place
  inDirectory : before.lookup output = .ok .directory → path = Path.join output fileName ∧
    ∃ directory, before.locate output = .ok directory ∧ place = directory ++ [fileName]
  asOutput : before.lookup output ≠ .ok .directory → path = output

/-- What a pass may do to the files: nothing, if it fails, and otherwise it writes the document
of the files as they were. It fails only for want of a document or of a file to write, or
because the device does. -/
structure IsAllOrNothing (faults : FileTree.Faults) (files : FileTree) (output fileName : String)
    (document : Except Failure String) (outcome : Outcome FileTree String) : Prop where
  failed : ∀ failure, outcome.result = .error failure → outcome.state = files
  written : ∀ path, outcome.result = .ok path → ∃ text place, document = .ok text ∧
    IsWritten files outcome.state output fileName text path place
  succeeds : (∃ path, outcome.result = .ok path) ↔ (∃ text, document = .ok text) ∧
    faults.IsClear ∧ ∃ place, files.IsReplaceable (resolveOutput files output fileName) place

section Pass

variable {faults : FileTree.Faults} {files : FileTree} {output fileName : String}

theorem isWritten_insert {place : Location} (hname : Path.steps fileName = [.down fileName])
    (h : files.IsReplaceable (resolveOutput files output fileName) place) (text : String) :
    IsWritten files (files.insert place (.file (Utf8.encode text.toList))) output fileName text
      (resolveOutput files output fileName) place := by
  have hreplaced := h.isReplaced_insert (Utf8.encode text.toList)
  refine ⟨hreplaced, fun hdirectory => ?_, fun hnot => resolveOutput_of_not_directory hnot _⟩
  have hpath := resolveOutput_of_directory hdirectory fileName
  obtain ⟨directory, hlocate, _⟩ := FileTree.lookup_eq_ok_iff.mp hdirectory
  have hbefore := hreplaced.before
  rw [hpath] at hbefore
  exact ⟨hpath, directory, hlocate, FileTree.eq_of_locate_join hlocate hname hbefore⟩

theorem isAllOrNothing_of_error {document : Except Failure String}
    {outcome : Outcome FileTree String} {failure : Failure}
    (hresult : outcome.result = .error failure) (hstate : outcome.state = files)
    (hnone : ¬ ((∃ text, document = .ok text) ∧ faults.IsClear ∧
      ∃ place, files.IsReplaceable (resolveOutput files output fileName) place)) :
    IsAllOrNothing faults files output fileName document outcome := by
  refine ⟨fun _ _ => hstate, fun path hpath => ?_, iff_of_false ?_ hnone⟩
  · rw [hresult] at hpath
    cases hpath
  · rintro ⟨path, hpath⟩
    rw [hresult] at hpath
    cases hpath

/-- A pass that ends with writing its document is all or nothing. -/
theorem isAllOrNothing_bind {α : Type} (x : FileTree → Traced α) (toXml : α → String)
    (hname : Path.steps fileName = [.down fileName]) {write : α → Update FileTree String}
    (hwrite : ∀ d, ∃ root note, write d files =
      replaceText faults (resolveOutput files output fileName) root (toXml d) note files) :
    IsAllOrNothing faults files output fileName ((x files).result.map toXml)
      ((Update.reading x >>= write) files) := by
  have hresult := Update.result_bind (Update.reading x) write files
  cases hx : (Update.reading x files).result with
  | error failure =>
      have hdocument : (x files).result.map toXml = .error failure :=
        congrArg (Except.map toXml) hx
      rw [hx] at hresult
      refine isAllOrNothing_of_error hresult (Update.state_bind_of_error hx write) ?_
      rintro ⟨⟨text, htext⟩, _⟩
      rw [hdocument] at htext
      cases htext
  | ok d =>
      have hdocument : (x files).result.map toXml = .ok (toXml d) :=
        congrArg (Except.map toXml) hx
      have hstate := Update.state_bind_of_ok hx write
      obtain ⟨root, note, hnote⟩ := hwrite d
      rw [hx, ok_bind] at hresult
      rw [show (Update.reading x files).state = files from rfl, hnote] at hresult hstate
      rcases replaceText_cases files faults (resolveOutput files output fileName) root (toXml d)
          note with ⟨failure, hfailure, hsame, hnone⟩ | ⟨place, hok, hinsert, hclear, hplace⟩
      · exact isAllOrNothing_of_error (hresult.trans hfailure) (hstate.trans hsame)
          fun hall => hnone hall.2
      · refine ⟨fun failure hfailure => ?_, fun path hpath => ?_, ?_⟩
        · rw [hresult, hok] at hfailure
          cases hfailure
        · rw [hresult, hok] at hpath
          obtain rfl := Except.ok.inj hpath
          rw [hstate, hinsert]
          exact ⟨toXml d, place, hdocument, isWritten_insert hname hplace (toXml d)⟩
        · exact iff_of_true ⟨_, hresult.trans hok⟩ ⟨⟨toXml d, hdocument⟩, hclear, place, hplace⟩

end Pass

/-- The records of a pass are such as can be read back. -/
theorem Dependencies.ofXml_toXml_of_generate {files : FileTree}
    {localPaths remotePaths : List String} {name : String} {d : Dependencies}
    (h : (generate files localPaths remotePaths name).result = .ok d) :
    Dependencies.ofXml d.toXml = .ok d := by
  cases hname : Digest.Algorithm.ofName? name with
  | none =>
      rw [result_generate_of_none files localPaths remotePaths hname] at h
      cases h
  | some algorithm =>
      rw [result_generate_of_some files localPaths remotePaths hname, map_eq_ok_iff] at h
      obtain ⟨records, hrecords, rfl⟩ := h
      have hrecorded : ∀ r ∈ records, r.IsRecordedBy algorithm := by
        intro r hr
        apply isRecordedBy_of_mem_recordsAt files
        rw [mapM_id_eq_ok_iff.mp hrecords]
        exact List.mem_map_of_mem hr
      exact ofXml_toXml_of_isRecordedBy hrecorded

section Run

variable (faults : FileTree.Faults) (files : FileTree) (localPaths remotePaths paths : List String)
  (algorithm output : String)

theorem Dependencies.isAllOrNothing_run :
    IsAllOrNothing faults files output dependenciesFileName
      ((Dependencies.generate files localPaths remotePaths algorithm).result.map (·.toXml))
      (Dependencies.run faults localPaths remotePaths algorithm output files) := by
  have hname : Path.steps dependenciesFileName = [.down dependenciesFileName] := by decide
  exact isAllOrNothing_bind (fun files => generate files localPaths remotePaths algorithm)
    (·.toXml) hname fun d => ⟨_, _, Update.gets_bind_apply _ _ files⟩

theorem Constraints.isAllOrNothing_run :
    IsAllOrNothing faults files output constraintsFileName
      ((Constraints.generate files paths algorithm).result.map (·.toXml))
      (Constraints.run faults paths algorithm output files) := by
  have hname : Path.steps constraintsFileName = [.down constraintsFileName] := by decide
  exact isAllOrNothing_bind (fun files => generate files paths algorithm)
    (·.toXml) hname fun d => ⟨_, _, Update.gets_bind_apply _ _ files⟩

/-- **Passes that write are all or nothing**, whatever the device fails, and what a pass over
archives has written is read back as the document that it generated. -/
theorem run_isAllOrNothing :
    IsAllOrNothing faults files output dependenciesFileName
      ((Dependencies.generate files localPaths remotePaths algorithm).result.map (·.toXml))
      (Dependencies.run faults localPaths remotePaths algorithm output files) ∧
    IsAllOrNothing faults files output constraintsFileName
      ((Constraints.generate files paths algorithm).result.map (·.toXml))
      (Constraints.run faults paths algorithm output files) ∧
    ∀ path,
      (Dependencies.run faults localPaths remotePaths algorithm output files).result = .ok path →
      ∃ content text d,
        (Dependencies.run faults localPaths remotePaths algorithm output files).state.read path =
          .ok content ∧
        Utf8.decode? content = some text ∧ Dependencies.ofXml text = .ok d ∧
        (Dependencies.generate files localPaths remotePaths algorithm).result = .ok d := by
  have hdependencies :=
    Dependencies.isAllOrNothing_run faults files localPaths remotePaths algorithm output
  have hconstraints := Constraints.isAllOrNothing_run faults files paths algorithm output
  refine ⟨hdependencies, hconstraints, fun path hpath => ?_⟩
  obtain ⟨text, place, htext, hwritten⟩ := hdependencies.written path hpath
  obtain ⟨d, hd, rfl⟩ := map_eq_ok_iff.mp htext
  exact ⟨_, d.toXml, d, hwritten.replaced.read, Utf8.decode?_encode d.toXml,
    Dependencies.ofXml_toXml_of_generate hd, hd⟩

end Run

section Sample

open Dependencies (sampleFiles sampleRecord single)

/-- Both usual files can be written to a directory. -/
theorem isReplaceable_sampleFiles :
    sampleFiles.IsReplaceable (resolveOutput sampleFiles "out" dependenciesFileName)
      ["out", dependenciesFileName] ∧
    sampleFiles.IsReplaceable (resolveOutput sampleFiles "out" constraintsFileName)
      ["out", constraintsFileName] :=
  ⟨⟨⟨["out"], by decide +kernel⟩, by decide +kernel, by decide +kernel⟩,
    ⟨⟨["out"], by decide +kernel⟩, by decide +kernel, by decide +kernel⟩⟩

/-- A device that fails one stage, the writing after a byte. -/
def faultAt (stage : FileTree.Stage) : FileTree.Faults :=
  ⟨fun s => if s = stage then some (.device "Input/output error") else none, 1⟩

/-- A document that is written to a directory, the same with a device that fails at some stage,
a missing archive, and a document of no constraints. -/
theorem run_isAllOrNothing_sampleFiles :
    (∃ content text,
      (Dependencies.run .none ["a.jar"] [] "SHA1" "out" sampleFiles).result =
        .ok "out/CPKDependencies" ∧
      (Dependencies.run .none ["a.jar"] [] "SHA1" "out" sampleFiles).state.read
        "out/CPKDependencies" = .ok content ∧
      Utf8.decode? content = some text ∧
      Dependencies.ofXml text = .ok (single (sampleRecord .sameAsMe))) ∧
    (∀ stage, ∃ failure,
      (Dependencies.run (faultAt stage) ["a.jar"] [] "SHA1" "out" sampleFiles).result =
        .error failure ∧
      (Dependencies.run (faultAt stage) ["a.jar"] [] "SHA1" "out" sampleFiles).state =
        sampleFiles) ∧
    (Dependencies.run .none [] ["b.jar"] "SHA1" "out" sampleFiles).state = sampleFiles ∧
    ∃ text place, IsWritten sampleFiles (Constraints.run .none [] "SHA1" "out" sampleFiles).state
      "out" constraintsFileName text "out/DependencyConstraints" place := by
  have hgenerate := Dependencies.generate_local_sampleFiles
  have hlookup : sampleFiles.lookup "out" = .ok .directory := by decide +kernel
  have hclear : FileTree.Faults.none.IsClear := fun _ => rfl
  refine ⟨?_, fun stage => ?_, ?_, ?_⟩
  · obtain ⟨hrun, _, hread⟩ := run_isAllOrNothing .none sampleFiles ["a.jar"] [] [] "SHA1" "out"
    have hdocument : ∃ text, (Dependencies.generate sampleFiles ["a.jar"] [] "SHA1").result.map
        (·.toXml) = .ok text := ⟨_, by rw [hgenerate, ok_map]⟩
    obtain ⟨path, hpath⟩ := hrun.succeeds.mpr ⟨hdocument, hclear, _, isReplaceable_sampleFiles.1⟩
    obtain ⟨_, _, _, hwritten⟩ := hrun.written path hpath
    obtain rfl : path = "out/CPKDependencies" := (hwritten.inDirectory hlookup).1
    obtain ⟨content, text, d, hcontent, htext, hd, hresult⟩ := hread _ hpath
    rw [hgenerate] at hresult
    obtain rfl := Except.ok.inj hresult
    exact ⟨content, text, hpath, hcontent, htext, hd⟩
  · obtain ⟨hrun, _⟩ :=
      run_isAllOrNothing (faultAt stage) sampleFiles ["a.jar"] [] [] "SHA1" "out"
    cases hresult : (Dependencies.run (faultAt stage) ["a.jar"] [] "SHA1" "out" sampleFiles).result
      with
    | error failure => exact ⟨failure, rfl, hrun.failed failure hresult⟩
    | ok path =>
        obtain ⟨_, hnone, _⟩ := hrun.succeeds.mp ⟨path, hresult⟩
        have hfault := hnone stage
        simp [faultAt] at hfault
  · exact (run_isAllOrNothing .none sampleFiles [] ["b.jar"] [] "SHA1" "out").1.failed _ rfl
  · obtain ⟨_, hrun, _⟩ := run_isAllOrNothing .none sampleFiles [] [] [] "SHA1" "out"
    obtain ⟨path, hpath⟩ := hrun.succeeds.mpr ⟨⟨_, rfl⟩, hclear, _, isReplaceable_sampleFiles.2⟩
    obtain ⟨text, place, _, hwritten⟩ := hrun.written path hpath
    obtain rfl : path = "out/DependencyConstraints" := (hwritten.inDirectory hlookup).1
    exact ⟨text, place, hwritten⟩

end Sample

end Document

end CpkProvenance
