import CpkProvenance.Archive.Basic
import CpkProvenance.Update

/-!
# Dependency graph

Builds the document of dependencies, one archive at a time. A local archive is
signed like the CPK that carries the document, and its entries are not looked
at. A remote archive must be signed by exactly one set of signers, and is known
by the hashes of their public keys. A graph is used step by step, and goes on after
a step that fails.
-/

namespace CpkProvenance.Document

structure Graph where
  algorithm : Digest.Algorithm
  dependencies : List Dependency
  deriving DecidableEq, Repr

/-- The headers that describe a CPK. -/
def symbolicNameHeader : String := "Bundle-SymbolicName"

def versionHeader : String := "Bundle-Version"

def typeHeader : String := "Corda-CPK-Type"

/-- The record of an archive with the given signers. Name and version are
required, and the name must not be blank. -/
def Dependency.ofArchive (a : Archive) (signers : Signers) : Except Failure Dependency :=
  match a.attributes.get? symbolicNameHeader with
  | none => .error (.missingAttribute a.name symbolicNameHeader)
  | some name =>
      if Text.allBlank name then .error (.missingAttribute a.name symbolicNameHeader)
      else
        match a.attributes.get? versionHeader with
        | none => .error (.missingAttribute a.name versionHeader)
        | some version => .ok ⟨name, version, a.attributes.get? typeHeader, signers⟩

/-- The hashes of the public keys of a set of signers, in the set's order. -/
def publicKeyHashes (algorithm : Digest.Algorithm) (signers : SignerSet) : List HashValue :=
  signers.toList.map fun c => ⟨algorithm.name, algorithm.digest c.publicKey⟩

namespace Graph

def empty (algorithm : Digest.Algorithm) : Graph := ⟨algorithm, []⟩

def push (g : Graph) (d : Dependency) : Graph := ⟨g.algorithm, g.dependencies ++ [d]⟩

def appendLocal (a : Archive) : Update Graph Unit := do
  let dependency ← Update.lift (Traced.ofExcept (Dependency.ofArchive a .sameAsMe))
  Update.modify (·.push dependency)

def appendRemote (a : Archive) : Update Graph Unit := do
  let profile ← Update.lift a.profile
  match profile.single? with
  | none =>
      Update.lift (Traced.write .error
        ("CPK " ++ a.name ++ " signed by " ++ toString profile.size ++ " sets of signers:\n" ++
          profile.listing))
      Update.lift (Traced.fail (.multipleSignerSets a.name profile))
  | some signers =>
      let algorithm ← Update.gets Graph.algorithm
      let dependency ← Update.lift (Traced.ofExcept
        (Dependency.ofArchive a (.publicKeyHashes (publicKeyHashes algorithm signers))))
      Update.modify (·.push dependency)

inductive Step
  | appendLocal (a : Archive)
  | appendRemote (a : Archive)
  | profile (a : Archive)

/-- Takes a step, which gives a profile if one is asked for. -/
def act : Step → Update Graph (Option Profile)
  | .appendLocal a => do
      appendLocal a
      return none
  | .appendRemote a => do
      appendRemote a
      return none
  | .profile a => do
      let profile ← Update.lift a.profile
      return some profile

structure Run where
  replies : List (Traced (Option Profile))
  graph : Graph

/-- Takes steps one after the other, each with the graph that the one before it left,
whether that failed or not. -/
def run (g : Graph) : List Step → Run
  | [] => ⟨[], g⟩
  | s :: rest =>
      let outcome := act s g
      let others := run outcome.state rest
      ⟨outcome.toTraced :: others.replies, others.graph⟩

def finish (g : Graph) : Dependencies := ⟨g.dependencies⟩

end Graph

end CpkProvenance.Document
