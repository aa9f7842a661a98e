/-!
# JSON text

JSON values without numbers, and their text over several lines: two blanks for
each level, every item and member on a line of its own, and nothing between the
brackets of an empty list or object.
-/

namespace CpkProvenance

inductive Json
  | text (content : String)
  | list (items : List Json)
  | object (members : List (String × Json))

namespace Json

/-- The two digits of a control character below the blank. -/
def controlDigits (c : Char) : List Char :=
  [if c.toNat < 16 then '0' else '1', Nat.digitChar (c.toNat % 16)]

/-- How a character is written between quotes. -/
def escape (c : Char) : List Char :=
  match c with
  | '\x22' => ['\\', '\x22']
  | '\\' => ['\\', '\\']
  | '\x08' => ['\\', 'b']
  | '\x0c' => ['\\', 'f']
  | '\n' => ['\\', 'n']
  | '\r' => ['\\', 'r']
  | '\t' => ['\\', 't']
  | c => if c.toNat < 32 then ['\\', 'u', '0', '0'] ++ controlDigits c else [c]

def quote (content : String) : List Char :=
  '\x22' :: (content.toList.flatMap escape ++ ['\x22'])

def newLine (level : Nat) : List Char :=
  '\n' :: List.replicate (2 * level) ' '

mutual

/-- The text of a value whose first line begins at a level. -/
def layout (level : Nat) : Json → List Char
  | .text content => quote content
  | .list [] => ['[', ']']
  | .list (item :: rest) =>
      '[' :: (newLine (level + 1) ++ layout (level + 1) item ++ layoutItems (level + 1) rest ++
        newLine level ++ [']'])
  | .object [] => ['\x7b', '\x7d']
  | .object (member :: rest) =>
      '\x7b' :: (newLine (level + 1) ++ layoutMember (level + 1) member ++
        layoutMembers (level + 1) rest ++ newLine level ++ ['\x7d'])

def layoutItems (level : Nat) : List Json → List Char
  | [] => []
  | item :: rest => ',' :: (newLine level ++ layout level item ++ layoutItems level rest)

def layoutMember (level : Nat) : String × Json → List Char
  | (key, value) => quote key ++ [':', ' '] ++ layout level value

def layoutMembers (level : Nat) : List (String × Json) → List Char
  | [] => []
  | member :: rest =>
      ',' :: (newLine level ++ layoutMember level member ++ layoutMembers level rest)

end

def render (value : Json) : String :=
  String.ofList (layout 0 value)

end Json

end CpkProvenance
