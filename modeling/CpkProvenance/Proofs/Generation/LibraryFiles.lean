import CpkProvenance.Proofs.Digest.Reads
import CpkProvenance.Proofs.FileTree
import CpkProvenance.Proofs.Generation.Constraints

/-!
# Pinned library files

A pass over library files pins each by the last name of its path and by the digest of its
whole content. It succeeds exactly if all files can be read, and otherwise fails with the
first that cannot.

That the path of a file has a last name is a matter of the tree: a path that ends in a step up,
or in no step at all, leads to a directory.
-/

namespace CpkProvenance

namespace FileTree

variable {t : FileTree} {place : Location} {path : String} {content : Bytes}

/-- There are directories all the way down to a place. -/
def HasDirectoriesAbove (t : FileTree) (place : Location) : Prop :=
  ∀ above, above <+: place → above ≠ place → t.node? above = some .directory

theorem HasDirectoriesAbove.directory (h : t.HasDirectoriesAbove place)
    (hplace : t.node? place = some .directory) {above : Location} (habove : above <+: place) :
    t.node? above = some .directory := by
  by_cases heq : above = place
  · rw [heq, hplace]
  · exact h above habove heq

/-- A step never leaves the directories, since it is taken in one. -/
theorem HasDirectoriesAbove.step (h : t.HasDirectoriesAbove place) {step : Path.Step}
    {next : Location} (hstep : t.step place step = .ok next) : t.HasDirectoriesAbove next := by
  obtain ⟨hplace, rfl, _⟩ := step_eq_ok_iff.mp hstep
  intro above habove hne
  refine h.directory hplace ?_
  cases step with
  | stay => exact habove
  | up => exact habove.trans (List.dropLast_prefix place)
  | down name =>
      rw [Location.move, List.prefix_concat_iff] at habove
      exact habove.resolve_left hne

theorem HasDirectoriesAbove.walk (h : t.HasDirectoriesAbove place) {steps : List Path.Step}
    {last : Location} (hwalk : t.walk place steps = .ok last) : t.HasDirectoriesAbove last := by
  induction steps generalizing place with
  | nil =>
      obtain rfl := Except.ok.inj hwalk
      exact h
  | cons step steps ih =>
      obtain ⟨next, hstep, hwalk⟩ := walk_cons_eq_ok_iff.mp hwalk
      exact ih (h.step hstep) hwalk

theorem hasDirectoriesAbove_start (t : FileTree) (path : String) :
    t.HasDirectoriesAbove (t.start path) := by
  intro above habove _
  refine node?_of_above (habove.trans ?_)
  rw [FileTree.start]
  split
  · exact List.nil_prefix
  · exact List.prefix_rfl

/-- The path of a file goes down to it. -/
theorem exists_fileName?_of_read (hread : t.read path = .ok content) :
    ∃ name, Path.fileName? path = some name := by
  obtain ⟨place, hlocate, hnode⟩ := read_eq_ok_iff.mp hread
  obtain ⟨_, hwalk⟩ := locate_eq_ok_iff.mp hlocate
  obtain ⟨front, last, hsteps⟩ := (List.eq_nil_or_concat' (Path.steps path)).resolve_left
    (Path.steps_ne_nil path)
  rw [hsteps, walk_append_eq_ok_iff] at hwalk
  obtain ⟨directory, hfront, hlast⟩ := hwalk
  obtain ⟨_, hstep, hend⟩ := walk_cons_eq_ok_iff.mp hlast
  obtain rfl := Except.ok.inj hend
  obtain ⟨hdirectory, rfl, _⟩ := step_eq_ok_iff.mp hstep
  -- A last step that stays or goes up ends in a directory.
  have hfile : ¬ directory.move last <+: directory := by
    intro hprefix
    rw [((t.hasDirectoriesAbove_start path).walk hfront).directory hdirectory hprefix] at hnode
    cases hnode
  cases last with
  | stay => exact absurd List.prefix_rfl hfile
  | up => exact absurd (List.dropLast_prefix directory) hfile
  | down name => exact ⟨name, Path.fileName?_of_getLast? (by rw [hsteps, List.getLast?_concat])⟩

end FileTree

namespace Document

variable {files : FileTree} {algorithm : Digest.Algorithm}

/-- The file at a path is pinned as a whole: by the last name of the path, and by a digest that
is the one of any way to read the content. -/
structure Constraint.PinsFile (files : FileTree) (algorithm : Digest.Algorithm) (path : String)
    (c : Constraint) : Prop where
  lastName : ∀ name, Path.IsLastName path name ↔ name = c.fileName
  hash : ∃ content, files.read path = .ok content ∧
    c.hash = ⟨algorithm.name, algorithm.digest content⟩ ∧
    ∀ room last, Bytes.Reads room Digest.Stream.update
      (Digest.Stream.empty : Digest.Hasher algorithm) content last → c.hash.value = last.finish

theorem Constraint.ofContent_eq (fileName : String) (content : Bytes) :
    Constraint.ofContent algorithm fileName content =
      ⟨fileName, algorithm.name, algorithm.digest content⟩ := by
  rw [Constraint.ofContent, Digest.Stream.finish_of_reads (Bytes.reads_pieces (by decide) content _)]
  rfl

theorem Constraint.IsOfFile.pinsFile {path : String} {c : Constraint}
    (h : c.IsOfFile files algorithm path) : c.PinsFile files algorithm path := by
  obtain ⟨content, hread, rfl⟩ := h
  rw [Constraint.ofContent_eq]
  refine ⟨fun name => ?_, content, hread, rfl, fun room last hlast => ?_⟩
  · obtain ⟨last, hlast⟩ := FileTree.exists_fileName?_of_read hread
    rw [← Path.fileName?_eq_some_iff_isLastName, Path.label, hlast, Option.getD_some,
      Option.some.injEq, eq_comm]
  · exact (Digest.Stream.finish_of_reads hlast).symm

theorem Constraint.ofFile_eq_error_iff {path : String} {failure : Failure} :
    (Constraint.ofFile files algorithm path).result = .error failure ↔
      ∃ reason, files.read path = .error reason ∧
        failure = .unreadable (Path.label path) (some reason) := by
  unfold Constraint.ofFile
  cases files.read path with
  | error reason => simp [eq_comm]
  | ok content =>
      rw [Traced.result_bind_of_ok (Traced.result_write _ _)]
      exact iff_of_false (by rintro ⟨⟩) (by rintro ⟨_, ⟨⟩, _⟩)

theorem Constraint.exists_ofFile_eq_ok_iff {path : String} :
    (∃ c, (Constraint.ofFile files algorithm path).result = .ok c) ↔
      ∃ content, files.read path = .ok content := by
  simp only [Constraint.ofFile_eq_ok_iff]
  constructor
  · rintro ⟨_, content, hread, _⟩
    exact ⟨content, hread⟩
  · rintro ⟨content, hread⟩
    exact ⟨_, content, hread, rfl⟩

/-- As far as its result goes, a pass reads the files one after the other. -/
theorem Constraint.result_ofFiles (paths : List String) :
    (Constraint.ofFiles files algorithm paths).result =
      paths.mapM fun path => (Constraint.ofFile files algorithm path).result := by
  induction paths with
  | nil => rfl
  | cons path paths ih =>
      simp only [Constraint.ofFiles, List.mapM_cons, Traced.result_bind, ih]
      rfl

theorem Constraints.generate_of_none {name : String} (files : FileTree) (paths : List String)
    (h : Digest.Algorithm.ofName? name = none) :
    Constraints.generate files paths name = Traced.fail (.unsupportedAlgorithm name) := by
  rw [Constraints.generate, Digest.Algorithm.ofName, h]
  rfl

theorem Constraints.result_generate_of_some {name : String} (files : FileTree)
    (paths : List String) (h : Digest.Algorithm.ofName? name = some algorithm) :
    (Constraints.generate files paths name).result =
      (paths.mapM fun path => (Constraint.ofFile files algorithm path).result).map (⟨·⟩) := by
  rw [Constraints.generate, Traced.result_bind, Traced.result_ofExcept,
    Digest.Algorithm.ofName_eq_ok_iff.mpr h, ok_bind, Traced.result_bind, Constraint.result_ofFiles]
  rfl

/-- **Library constraints pin whole files.** A pass with a supported algorithm succeeds exactly
if every file can be read, it pins the files in the order of the paths, and it fails with the
first file that cannot be read. Without a supported algorithm it does not get to any file. -/
theorem Constraints.generate_outcome (files : FileTree) (paths : List String) (name : String) :
    (Digest.Algorithm.ofName? name = none →
      Constraints.generate files paths name = Traced.fail (.unsupportedAlgorithm name)) ∧
    ∀ algorithm, Digest.Algorithm.ofName? name = some algorithm →
      ((∃ d, (Constraints.generate files paths name).result = .ok d) ↔
        ∀ path ∈ paths, ∃ content, files.read path = .ok content) ∧
      (∀ d, (Constraints.generate files paths name).result = .ok d →
        List.Forall₂ (fun path c => c.PinsFile files algorithm path) paths d.constraints) ∧
      ∀ failure, (Constraints.generate files paths name).result = .error failure ↔
        ∃ front path back reason, paths = front ++ path :: back ∧
          (∀ earlier ∈ front, ∃ content, files.read earlier = .ok content) ∧
          files.read path = .error reason ∧
          failure = .unreadable (Path.label path) (some reason) := by
  refine ⟨Constraints.generate_of_none files paths, fun algorithm h => ⟨?_, ?_, ?_⟩⟩
  · rw [Constraints.result_generate_of_some files paths h]
    constructor
    · rintro ⟨d, hd⟩ path hpath
      obtain ⟨cs, hcs, rfl⟩ := map_eq_ok_iff.mp hd
      obtain ⟨c, _, hc⟩ := exists_of_forall₂_left (mapM_eq_ok_iff.mp hcs) hpath
      exact Constraint.exists_ofFile_eq_ok_iff.mp ⟨c, hc⟩
    · intro hread
      obtain ⟨cs, hcs⟩ := exists_mapM_eq_ok fun path hpath =>
        Constraint.exists_ofFile_eq_ok_iff.mpr (hread path hpath)
      exact ⟨⟨cs⟩, map_eq_ok_iff.mpr ⟨cs, hcs, rfl⟩⟩
  · intro d hd
    obtain ⟨found, hfound, hfiles⟩ := Constraints.generate_eq_ok_iff.mp hd
    obtain rfl := Option.some.inj (hfound.symm.trans h)
    exact hfiles.imp fun path c hc => hc.pinsFile
  · intro failure
    rw [Constraints.result_generate_of_some files paths h, map_eq_error_iff, mapM_eq_error_iff]
    simp only [Constraint.ofFile_eq_error_iff, Constraint.exists_ofFile_eq_ok_iff]
    constructor
    · rintro ⟨front, path, back, hpaths, hfront, reason, hread, hfailure⟩
      exact ⟨front, path, back, reason, hpaths, hfront, hread, hfailure⟩
    · rintro ⟨front, path, back, reason, hpaths, hfront, hread, hfailure⟩
      exact ⟨front, path, back, hpaths, hfront, reason, hread, hfailure⟩

/-- One library that is there, and one that is not. -/
theorem generate_outcome_of_libraryFiles :
    (∃ d, (Constraints.generate libraryFiles ["lib/a <&> b.jar"] "sha256").result = .ok d) ∧
    (∀ d, (Constraints.generate libraryFiles ["lib/a <&> b.jar"] "sha256").result = .ok d →
      List.Forall₂ (fun path c => c.PinsFile libraryFiles .sha256 path) ["lib/a <&> b.jar"]
        d.constraints) ∧
    (Constraints.generate libraryFiles ["lib/a <&> b.jar", "lib/gone.jar", "nor/this"]
      "sha256").result = .error (.unreadable "gone.jar" (some .notFound)) ∧
    Constraints.generate libraryFiles ["lib/a <&> b.jar"] "crc32" =
      Traced.fail (.unsupportedAlgorithm "crc32") := by
  have hread : libraryFiles.read "lib/a <&> b.jar" = .ok [1, 2] := by decide +kernel
  obtain ⟨hok, hpins, _⟩ := (Constraints.generate_outcome libraryFiles ["lib/a <&> b.jar"]
    "sha256").2 .sha256 (by decide)
  have hfailure := ((Constraints.generate_outcome libraryFiles
    ["lib/a <&> b.jar", "lib/gone.jar", "nor/this"] "sha256").2 .sha256 (by decide)).2.2
  refine ⟨hok.mpr ?_, hpins, (hfailure _).mpr ⟨["lib/a <&> b.jar"], "lib/gone.jar", ["nor/this"],
    .notFound, rfl, ?_, by decide +kernel, by decide +kernel⟩,
    (Constraints.generate_outcome libraryFiles _ "crc32").1 (by decide)⟩
  · exact List.forall_mem_singleton.mpr ⟨[1, 2], hread⟩
  · exact List.forall_mem_singleton.mpr ⟨[1, 2], hread⟩

end Document

end CpkProvenance
