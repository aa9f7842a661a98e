import CpkProvenance.CommandLine.Arguments

/-!
# Commands

The commands and what they are told. A digest algorithm that is not given as an
option is taken from the environment.
-/

namespace CpkProvenance.CommandLine

inductive Command
  | generate (localPaths remotePaths : List String) (algorithm output : String)
  | constraints (libraries : List String) (algorithm output : String)
  | inspect (document : String)
  | signers (jar : String)
  | companionPom (groupId artifactId version : String) (cordapps provided : List String)
      (output : String)
  deriving DecidableEq, Repr

/-- An option whose value is a path, which is not empty. -/
def pathOption (long : String) (short : Option Char) (repeats : Bool) : OptionRule :=
  ⟨long, short, false, repeats⟩

def textOption (long : String) (repeats : Bool) : OptionRule :=
  ⟨long, none, true, repeats⟩

def outputOption : OptionRule := pathOption "output" (some 'o') false

def algorithmOption : OptionRule := textOption "hash-algorithm" false

def generateUsage : Usage :=
  ⟨[pathOption "local" none true, pathOption "remote" none true, algorithmOption, outputOption],
    some 0⟩

def constraintsUsage : Usage :=
  ⟨[algorithmOption, outputOption], none⟩

def fileUsage : Usage :=
  ⟨[], some 1⟩

def companionPomUsage : Usage :=
  ⟨[textOption "group-id" false, textOption "artifact-id" false, textOption "version" false,
    textOption "cordapp" true, textOption "provided" true, outputOption], some 0⟩

abbrev Environment := List (String × String)

def algorithmVariable : String := "CPK_HASH_ALGORITHM"

def defaultAlgorithm : String := "SHA-256"

/-- The digest algorithm: that of the option, else that of the environment. -/
def algorithmOf (environment : Environment) (a : Arguments) : String :=
  (a.value? "hash-algorithm").getD ((environment.lookup algorithmVariable).getD defaultAlgorithm)

def fileOf (a : Arguments) : Except Stop String :=
  match a.operands with
  | path :: _ => .ok path
  | [] => .error .misuse

namespace Command

def parseGenerate (environment : Environment) (words : List String) : Except Stop Command := do
  let a ← generateUsage.parse words
  let output ← a.value "output"
  return .generate (a.values "local") (a.values "remote") (algorithmOf environment a) output

def parseConstraints (environment : Environment) (words : List String) :
    Except Stop Command := do
  let a ← constraintsUsage.parse words
  let output ← a.value "output"
  return .constraints a.operands (algorithmOf environment a) output

def parseCompanionPom (words : List String) : Except Stop Command := do
  let a ← companionPomUsage.parse words
  let groupId ← a.value "group-id"
  let artifactId ← a.value "artifact-id"
  let version ← a.value "version"
  let output ← a.value "output"
  return .companionPom groupId artifactId version (a.values "cordapp") (a.values "provided") output

def helpTopics : List String :=
  ["generate", "constraints", "inspect", "signers", "companion-pom", "help"]

/-- What the words after `help` ask for: help on the program or on one command. -/
def stopOfHelp : List String → Stop
  | [] => .help
  | [topic] => if topic ∈ helpTopics then .help else .misuse
  | _ => .misuse

/-- What a first word asks for that is no command. -/
def stopOf (word : String) : Stop :=
  match Word.ofText word with
  | .long "version" none => .version
  | .long "help" none => .help
  | .short 'V' _ => .version
  | .short 'h' _ => .help
  | _ => .misuse

def parse (environment : Environment) : List String → Except Stop Command
  | "generate" :: words => parseGenerate environment words
  | "constraints" :: words => parseConstraints environment words
  | "inspect" :: words => ((fileUsage.parse words).bind fileOf).map .inspect
  | "signers" :: words => ((fileUsage.parse words).bind fileOf).map .signers
  | "companion-pom" :: words => parseCompanionPom words
  | "help" :: words => .error (stopOfHelp words)
  | word :: _ => .error (stopOf word)
  | [] => .error .misuse

end Command

end CpkProvenance.CommandLine
