import CpkProvenance.Bytes.Utf8

/-!
# Escaped text

Five characters are written as named references. Reading also accepts decimal
and hexadecimal character references, and reports the first reference that it
cannot resolve, with byte offsets into the text.
-/

namespace CpkProvenance.Xml

inductive ReferenceFault
  | unexpectedSign
  | emptyNumber
  | invalidDigit
  | tooLarge
  | forbiddenZero
  | notScalar (value : Nat)
  deriving DecidableEq, Repr

def ReferenceFault.message : ReferenceFault → String
  | .unexpectedSign => "unexpected number sign"
  | .emptyNumber => "cannot parse integer from empty string"
  | .invalidDigit => "invalid digit found in string"
  | .tooLarge => "number too large to fit in target type"
  | .forbiddenZero => "0x0 character is not permitted in XML"
  | .notScalar value => s!"`{value}` is not a valid codepoint"

/-- Why a text cannot be unescaped. Offsets count bytes. -/
inductive EscapeFault
  | unterminated (start stop : Nat)
  | unrecognized (start stop : Nat) (name : String)
  | invalidReference (fault : ReferenceFault)
  deriving DecidableEq, Repr

def EscapeFault.message : EscapeFault → String
  | .unterminated start stop =>
      s!"Error while escaping character at range {start}..{stop}: Cannot find ';' after '&'"
  | .unrecognized start stop name => s!"at {start}..{stop}: unrecognized entity `{name}`"
  | .invalidReference fault => "invalid character reference: " ++ fault.message

/-- The names of the five references that need no number. -/
def entityName? (c : Char) : Option (List Char) :=
  if c = '<' then some ['l', 't']
  else if c = '>' then some ['g', 't']
  else if c = '&' then some ['a', 'm', 'p']
  else if c = '\x27' then some ['a', 'p', 'o', 's']
  else if c = '\x22' then some ['q', 'u', 'o', 't']
  else none

def entity? (name : List Char) : Option Char :=
  match name with
  | ['l', 't'] => some '<'
  | ['g', 't'] => some '>'
  | ['a', 'm', 'p'] => some '&'
  | ['a', 'p', 'o', 's'] => some '\x27'
  | ['q', 'u', 'o', 't'] => some '\x22'
  | _ => none

def escapeChar (c : Char) : List Char :=
  match entityName? c with
  | some name => '&' :: (name ++ [';'])
  | none => [c]

def escape (text : List Char) : List Char :=
  text.flatMap escapeChar

def digit? (radix : Nat) (c : Char) : Option Nat :=
  let value :=
    if '0' ≤ c ∧ c ≤ '9' then c.toNat - '0'.toNat
    else if 'a' ≤ c ∧ c ≤ 'f' then c.toNat - 'a'.toNat + 10
    else if 'A' ≤ c ∧ c ≤ 'F' then c.toNat - 'A'.toNat + 10
    else radix
  if value < radix then some value else none

/-- Reads digits from the left, and stops at the first that is none or that
takes the value beyond 32 bits. -/
def digits (radix value : Nat) : List Char → Except ReferenceFault Nat
  | [] => .ok value
  | c :: rest =>
      match digit? radix c with
      | none => .error .invalidDigit
      | some d =>
          if radix * value + d < 0x100000000 then digits radix (radix * value + d) rest
          else .error .tooLarge

def number (radix : Nat) : List Char → Except ReferenceFault Nat
  | [] => .error .emptyNumber
  | c :: rest =>
      if c = '+' ∨ c = '-' then .error .unexpectedSign else digits radix 0 (c :: rest)

/-- The character of a reference, whose text follows the number sign. -/
def characterReference (text : List Char) : Except ReferenceFault Char := do
  let value ←
    match text with
    | 'x' :: hexadecimal => number 16 hexadecimal
    | decimal => number 10 decimal
  if value = 0 then .error .forbiddenZero
  else if value.isValidChar then .ok (Char.ofNat value)
  else .error (.notScalar value)

def inReference (c : Char) : Bool :=
  c != '&' && c != ';'

/-- The character of the reference at the front of the rest of a text of `total`
bytes, after its ampersand. -/
def reference (total : Nat) (rest : List Char) : Except EscapeFault Char :=
  match rest.takeWhile inReference with
  | '#' :: text =>
      match characterReference text with
      | .ok c => .ok c
      | .error fault => .error (.invalidReference fault)
  | name =>
      match entity? name with
      | some c => .ok c
      | none =>
          let start := total - Utf8.size rest
          .error (.unrecognized start (start + Utf8.size name) (String.ofList name))

/-- Resolves the references of the rest of a text of `total` bytes. -/
def unescapeFrom (total : Nat) : List Char → Except EscapeFault (List Char)
  | [] => .ok []
  | c :: rest =>
      if c = '&' then
        match _h : rest.dropWhile inReference with
        | ';' :: after => do
            let first ← reference total rest
            let others ← unescapeFrom total after
            return first :: others
        | _ => .error (.unterminated (total - Utf8.size (c :: rest)) total)
      else do
        let others ← unescapeFrom total rest
        return c :: others
termination_by text => text.length
decreasing_by
  · have := (List.dropWhile_sublist inReference (l := rest)).length_le
    simp only [_h, List.length_cons] at this ⊢
    omega
  · simp

def unescape (text : List Char) : Except EscapeFault (List Char) :=
  unescapeFrom (Utf8.size text) text

end CpkProvenance.Xml
