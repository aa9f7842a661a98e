import CpkProvenance.CommandLine.Command
import CpkProvenance.CommandLine.Report
import CpkProvenance.Document.Json
import CpkProvenance.Document.Reader
import CpkProvenance.Generation.Output

/-!
# Running commands

What a command prints, and what it does to the files. A command that fails
prints a report and has status 1. Words that make no command have status 2.
-/

namespace CpkProvenance.CommandLine

/-- What a command gives: log lines, its output or a report, and the files after
it. -/
structure Execution where
  log : List LogLine
  result : Except Report String
  files : FileTree

namespace Execution

/-- The execution of a computation, with the output for its result and the
context for its failure. -/
def ofOutcome {α : Type} (context : String) (x : Outcome FileTree α) (output : α → String) :
    Execution :=
  ⟨x.log,
    match x.result with
    | .ok a => .ok (output a)
    | .error failure => .error (.ofFailure context failure),
    x.state⟩

def ofResult (files : FileTree) (result : Except Report String) : Execution :=
  ⟨[], result, files⟩

end Execution

def inspectDocument (files : FileTree) (path : String) : Except Report Document.Dependencies :=
  match files.read path with
  | .error reason => .error ⟨"Failed to read '" ++ path ++ "'", [reason.message]⟩
  | .ok content =>
      match Utf8.decode? content with
      | none =>
          .error ⟨"Failed to read '" ++ path ++ "'", ["stream did not contain valid UTF-8"]⟩
      | some text =>
          match Document.Dependencies.ofXml text with
          | .error fault =>
              .error (.ofFailure ("Failed to parse '" ++ path ++ "'") (.document fault))
          | .ok document => .ok document

def signerSetListing (signers : SignerSet) : String :=
  "\nCERTIFICATE SET (size=" ++ toString signers.size ++ "):\n" ++
    String.join (signers.toList.map fun c => "# " ++ c.display ++ "\n" ++ c.pem)

def profileListing (name : String) (profile : Profile) : String :=
  if profile.isEmpty then name ++ ": no signable entries\n"
  else
    name ++ ": " ++ toString profile.size ++ " signer set(s)\n" ++
      String.join (profile.toList.map signerSetListing)

def runSigners (files : FileTree) (path : String) : Execution :=
  let opened := Jar.openFile files path
  match opened.result with
  | .error failure =>
      ⟨opened.log, .error (.ofFailure ("Failed to open '" ++ path ++ "'") failure), files⟩
  | .ok jar =>
      let profile := (jar.archive Jar.bufferSize).profile
      let listed := Execution.ofOutcome ("Failed to read signers of '" ++ path ++ "'")
        ⟨profile, files⟩ (profileListing jar.name)
      { listed with log := opened.log ++ listed.log }

def coordinates (option : String) (urls : List String) : Except Report (List Maven.Coordinate) :=
  urls.mapM fun url =>
    match Maven.Coordinate.parse url with
    | .ok c => .ok c
    | .error fault =>
        .error (.ofFailure ("Bad --" ++ option ++ " '" ++ url ++ "'") (.coordinate url fault))

def readCompanionPom (groupId artifactId version : String) (cordapps provided : List String) :
    Except Report Maven.CompanionPom := do
  let cordapps ← coordinates "cordapp" cordapps
  let provided ← coordinates "provided" provided
  return Maven.CompanionPom.ofArtifact groupId artifactId version cordapps provided

/-- Runs a command. The faults are those of the device on which a document is
replaced. -/
def Command.run (faults : FileTree.Faults) (files : FileTree) : Command → Execution
  | .generate localPaths remotePaths algorithm output =>
      .ofOutcome ("Failed to generate CPK dependencies into '" ++ output ++ "'")
        (Document.Dependencies.run faults localPaths remotePaths algorithm output files) (· ++ "\n")
  | .constraints libraries algorithm output =>
      .ofOutcome ("Failed to generate dependency constraints into '" ++ output ++ "'")
        (Document.Constraints.run faults libraries algorithm output files) (· ++ "\n")
  | .inspect path =>
      .ofResult files ((inspectDocument files path).map fun d => d.toJson.render ++ "\n")
  | .signers path => runSigners files path
  | .companionPom groupId artifactId version cordapps provided output =>
      match readCompanionPom groupId artifactId version cordapps provided with
      | .error report => .ofResult files (.error report)
      | .ok pom =>
          .ofOutcome ("Failed to write companion POM '" ++ output ++ "'")
            (pom.publish output files) (fun _ => "")

structure Exit where
  status : Nat
  output : String
  report : String
  log : List LogLine
  files : FileTree

def versionText : String := "cpk_dependencies 0.1.0\n"

def usageText : String :=
  "Usage: cpk_dependencies <generate|constraints|inspect|signers|companion-pom> ...\n"

def run (environment : Environment) (words : List String) (faults : FileTree.Faults)
    (files : FileTree) : Exit :=
  match Command.parse environment words with
  | .error .help => ⟨0, usageText, "", [], files⟩
  | .error .version => ⟨0, versionText, "", [], files⟩
  | .error .misuse => ⟨2, "", usageText, [], files⟩
  | .ok command =>
      let e := command.run faults files
      match e.result with
      | .ok output => ⟨0, output, "", e.log, e.files⟩
      | .error report => ⟨1, "", report.text, e.log, e.files⟩

end CpkProvenance.CommandLine
