import CpkProvenance.Text.Cut

/-!
# Arguments

Sorts the words of a command into options with their values and operands. The
value of an option is the next word, or is attached to it: `--output x`,
`--output=x`, `-o x`, `-o=x` and `-ox` are the same. After `--` every word is an
operand. Reading stops at the first word that is wrong.
-/

namespace CpkProvenance.CommandLine

inductive Stop
  | help
  | version
  | misuse
  deriving DecidableEq, Repr

structure OptionRule where
  long : String
  short : Option Char
  /-- Whether the value may be empty. -/
  allowsEmpty : Bool
  /-- Whether the option may be given more than once. -/
  repeats : Bool
  deriving DecidableEq, Repr

/-- What a command accepts: its options, and how many operands, if that is
limited. -/
structure Usage where
  options : List OptionRule
  operands : Option Nat
  deriving DecidableEq, Repr

/-- Options by their long names and operands, each in the order given. -/
structure Arguments where
  options : List (String × String)
  operands : List String
  deriving DecidableEq, Repr

namespace Arguments

def values (a : Arguments) (long : String) : List String :=
  (a.options.filter (·.1 = long)).map (·.2)

def value? (a : Arguments) (long : String) : Option String :=
  (a.values long).head?

def value (a : Arguments) (long : String) : Except Stop String :=
  match a.value? long with
  | some v => .ok v
  | none => .error .misuse

def addOption (a : Arguments) (rule : OptionRule) (value : String) : Except Stop Arguments :=
  if value = "" ∧ rule.allowsEmpty = false then .error .misuse
  else if rule.repeats = false ∧ a.value? rule.long ≠ none then .error .misuse
  else .ok { a with options := a.options ++ [(rule.long, value)] }

/-- Operands are paths, so that none is empty. -/
def addOperand (a : Arguments) (usage : Usage) (operand : String) : Except Stop Arguments :=
  if operand = "" then .error .misuse
  else
    match usage.operands with
    | some limit =>
        if a.operands.length < limit then
          .ok { a with operands := a.operands ++ [operand] }
        else .error .misuse
    | none => .ok { a with operands := a.operands ++ [operand] }

def addOperands (a : Arguments) (usage : Usage) (operands : List String) :
    Except Stop Arguments :=
  operands.foldlM (fun a operand => a.addOperand usage operand) a

end Arguments

/-- What a word looks like before the options are known. -/
inductive Word
  | endOfOptions
  | operand
  | long (name : String) (attached : Option String)
  | short (letter : Char) (attached : Option String)
  deriving DecidableEq, Repr

def attachedToShort : List Char → Option String
  | [] => none
  | '=' :: value => some (String.ofList value)
  | value => some (String.ofList value)

/-- A single hyphen is an operand. -/
def Word.ofText (text : String) : Word :=
  match text.toList with
  | ['-', '-'] => .endOfOptions
  | '-' :: '-' :: body =>
      match Text.cutFirst? '=' body with
      | some (name, value) => .long (String.ofList name) (some (String.ofList value))
      | none => .long (String.ofList body) none
  | '-' :: letter :: attached => .short letter (attachedToShort attached)
  | _ => .operand

namespace Usage

def ofLong? (u : Usage) (name : String) : Option OptionRule :=
  u.options.find? (·.long = name)

def ofShort? (u : Usage) (letter : Char) : Option OptionRule :=
  u.options.find? (·.short = some letter)

/-- The option that a word names, with the attached value, or the reason to
stop. -/
def option (u : Usage) : Word → Except Stop (Option (OptionRule × Option String))
  | .endOfOptions => .ok none
  | .operand => .ok none
  | .long name attached =>
      match u.ofLong? name with
      | some rule => .ok (some (rule, attached))
      | none => .error (if name = "help" ∧ attached = none then .help else .misuse)
  | .short letter attached =>
      match u.ofShort? letter with
      | some rule => .ok (some (rule, attached))
      | none => .error (if letter = 'h' then .help else .misuse)

/-- Reads words after those that gave `read`. A word that looks like an option
is no value. -/
def parseFrom (u : Usage) (read : Arguments) : List String → Except Stop Arguments
  | [] => .ok read
  | text :: rest =>
      match u.option (Word.ofText text) with
      | .error stop => .error stop
      | .ok none =>
          if Word.ofText text = .endOfOptions then read.addOperands u rest
          else
            match read.addOperand u text with
            | .error stop => .error stop
            | .ok next => u.parseFrom next rest
      | .ok (some (rule, some value)) =>
          match read.addOption rule value with
          | .error stop => .error stop
          | .ok next => u.parseFrom next rest
      | .ok (some (rule, none)) =>
          match rest with
          | [] => .error .misuse
          | value :: others =>
              if Word.ofText value ≠ .operand then .error .misuse
              else
                match read.addOption rule value with
                | .error stop => .error stop
                | .ok next => u.parseFrom next others

def parse (u : Usage) (words : List String) : Except Stop Arguments :=
  u.parseFrom ⟨[], []⟩ words

end Usage

end CpkProvenance.CommandLine
