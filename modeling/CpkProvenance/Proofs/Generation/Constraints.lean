import CpkProvenance.Generation.Constraints
import CpkProvenance.Proofs.Document.ConstraintRoundTrip
import CpkProvenance.Proofs.Document.GraphRun

/-!
# Constraints on files

A pass over library files gives one constraint for each path, if all files can be
read. Its document names every file by the label of its path, whatever characters
that has, so the document can be read back only if no label is blank. Everything else
that a pass writes is read back: all other names, and all hashes.
-/

namespace CpkProvenance.Document

section Generated

variable {files : FileTree} {algorithm : Digest.Algorithm}

/-- The constraint on the file at a path, which must be there. -/
def Constraint.IsOfFile (files : FileTree) (algorithm : Digest.Algorithm) (path : String)
    (c : Constraint) : Prop :=
  ∃ content, files.read path = .ok content ∧
    c = Constraint.ofContent algorithm (Path.label path) content

theorem Constraint.ofFile_eq_ok_iff {path : String} {c : Constraint} :
    (Constraint.ofFile files algorithm path).result = .ok c ↔ c.IsOfFile files algorithm path := by
  unfold Constraint.ofFile Constraint.IsOfFile
  cases files.read path with
  | error reason => exact iff_of_false (by rintro ⟨⟩) (by rintro ⟨_, ⟨⟩, _⟩)
  | ok content =>
      rw [Traced.result_bind_of_ok (Traced.result_write _ _), Traced.result_pure, Except.ok.injEq]
      constructor
      · rintro rfl
        exact ⟨content, rfl, rfl⟩
      · rintro ⟨_, hcontent, rfl⟩
        rw [Except.ok.inj hcontent]

/-- The pass over some files takes each to its constraint. -/
theorem Constraint.ofFiles_eq_ok_iff {paths : List String} {cs : List Constraint} :
    (Constraint.ofFiles files algorithm paths).result = .ok cs ↔
      List.Forall₂ (fun path c => c.IsOfFile files algorithm path) paths cs := by
  induction paths generalizing cs with
  | nil =>
      rw [Constraint.ofFiles, Traced.result_pure, Except.ok.injEq, List.forall₂_nil_left_iff,
        eq_comm]
  | cons path paths ih =>
      simp only [Constraint.ofFiles, Traced.result_bind_eq_ok_iff, Constraint.ofFile_eq_ok_iff, ih,
        Traced.result_pure, Except.ok.injEq, List.forall₂_cons_left_iff]
      constructor
      · rintro ⟨c, hc, others, hothers, rfl⟩
        exact ⟨c, others, hc, hothers, rfl⟩
      · rintro ⟨c, others, hc, hothers, rfl⟩
        exact ⟨c, hc, others, hothers, rfl⟩

theorem Constraints.generate_eq_ok_iff {paths : List String} {name : String} {d : Constraints} :
    (Constraints.generate files paths name).result = .ok d ↔
      ∃ algorithm, Digest.Algorithm.ofName? name = some algorithm ∧
        List.Forall₂ (fun path c => c.IsOfFile files algorithm path) paths d.constraints := by
  simp only [Constraints.generate, Traced.result_bind_eq_ok_iff, Traced.result_ofExcept,
    Digest.Algorithm.ofName_eq_ok_iff, Constraint.ofFiles_eq_ok_iff, Traced.result_pure,
    Except.ok.injEq]
  constructor
  · rintro ⟨algorithm, halgorithm, cs, hcs, rfl⟩
    exact ⟨algorithm, halgorithm, hcs⟩
  · rintro ⟨algorithm, halgorithm, hcs⟩
    exact ⟨algorithm, halgorithm, d.constraints, hcs, rfl⟩

theorem Constraint.IsOfFile.fileName {path : String} {c : Constraint}
    (h : c.IsOfFile files algorithm path) : c.fileName = Path.label path := by
  obtain ⟨content, _, rfl⟩ := h
  rfl

/-- The hash of a file is one that can be read back. -/
theorem Constraint.IsOfFile.algorithm_ne {path : String} {c : Constraint}
    (h : c.IsOfFile files algorithm path) : c.hash.algorithm ≠ "" := by
  obtain ⟨content, _, rfl⟩ := h
  exact algorithm.name_ne_empty

end Generated

section Readable

variable {files : FileTree} {paths : List String} {name : String} {d : Constraints}

/-- **A generated document of constraints is read back exactly if no file has a blank name.**
If one has, the document is written all the same, and the reader refuses it. -/
theorem Constraints.readBack_of_generate
    (h : (Constraints.generate files paths name).result = .ok d) :
    (Constraints.ofXml d.toXml = .ok d ↔
      ∀ path ∈ paths, Text.allBlank (Path.label path) = false) ∧
    ((∃ path ∈ paths, Text.allBlank (Path.label path) = true) →
      Constraints.ofXml d.toXml =
        .error (.emptyField "dependencyConstraint" "fileName")) := by
  obtain ⟨algorithm, _, hfiles⟩ := Constraints.generate_eq_ok_iff.mp h
  have halgorithms : ∀ c ∈ d.constraints, c.hash.algorithm ≠ "" := by
    intro c hc
    obtain ⟨path, _, hpath⟩ := exists_of_forall₂_right hfiles hc
    exact hpath.algorithm_ne
  constructor
  · rw [Constraints.ofXml_toXml_eq_ok_iff, and_iff_right rfl]
    constructor
    · intro hreadable path hpath
      obtain ⟨c, hc, hfile⟩ := exists_of_forall₂_left hfiles hpath
      rw [← hfile.fileName]
      exact (hreadable c hc).fileName
    · intro hnames c hc
      obtain ⟨path, hpath, hfile⟩ := exists_of_forall₂_right hfiles hc
      refine ⟨?_, halgorithms c hc⟩
      rw [hfile.fileName]
      exact hnames path hpath
  · rintro ⟨path, hpath, hblank⟩
    obtain ⟨c, hc, hfile⟩ := exists_of_forall₂_left hfiles hpath
    refine Constraints.ofXml_toXml_of_blank halgorithms ⟨c, hc, ?_⟩
    rw [hfile.fileName]
    exact hblank

/-- Two libraries, one of which has a name of one space. -/
def libraryFiles : FileTree :=
  ⟨[(["lib", "a <&> b.jar"], .file [1, 2]), (["lib", " "], .file [97, 98, 99]),
    (["lib"], .directory)], []⟩

theorem generate_libraryFiles (path : String) (content : Bytes)
    (h : libraryFiles.read path = .ok content) :
    (Constraints.generate libraryFiles [path] "sha256").result =
      .ok ⟨[Constraint.ofContent .sha256 (Path.label path) content]⟩ :=
  Constraints.generate_eq_ok_iff.mpr
    ⟨.sha256, by decide, .cons ⟨content, h, rfl⟩ .nil⟩

/-- Markup in a name does no harm, but a name of one space does. -/
theorem readBack_of_libraryFiles :
    Constraints.ofXml
        (Constraints.toXml ⟨[Constraint.ofContent .sha256 "a <&> b.jar" [1, 2]]⟩) =
      .ok ⟨[Constraint.ofContent .sha256 "a <&> b.jar" [1, 2]]⟩ ∧
    Constraints.ofXml
        (Constraints.toXml ⟨[Constraint.ofContent .sha256 " " [97, 98, 99]]⟩) =
      .error (.emptyField "dependencyConstraint" "fileName") := by
  have hmarkup := generate_libraryFiles "lib/a <&> b.jar" [1, 2] (by decide +kernel)
  have hspace := generate_libraryFiles "lib/ " [97, 98, 99] (by decide +kernel)
  exact ⟨(Constraints.readBack_of_generate hmarkup).1.mpr (by decide),
    (Constraints.readBack_of_generate hspace).2 (by decide)⟩

/-- A pass succeeds whose document cannot be read. -/
theorem exists_generated_not_readable :
    ∃ files paths name d, (Constraints.generate files paths name).result = .ok d ∧
      Constraints.ofXml d.toXml ≠ .ok d := by
  have hgenerate := generate_libraryFiles "lib/ " [97, 98, 99] (by decide +kernel)
  refine ⟨libraryFiles, ["lib/ "], "sha256", _, hgenerate, fun hread => ?_⟩
  have hreadable := (Constraints.ofXml_toXml_eq_ok_iff.mp hread).2 _ (List.mem_singleton_self _)
  exact absurd hreadable.fileName (by decide)

end Readable

end CpkProvenance.Document
