/-!
# Cutting text at a character

Cuts at the first or the last occurrence of a character, and at all of them. The
character itself is dropped.
-/

namespace CpkProvenance.Text

/-- The texts before and after the first occurrence of a character. -/
def cutFirst? (mark : Char) (text : List Char) : Option (List Char × List Char) :=
  match text.dropWhile (· != mark) with
  | _ :: after => some (text.takeWhile (· != mark), after)
  | [] => none

def cutLast? (mark : Char) (text : List Char) : Option (List Char × List Char) :=
  (cutFirst? mark text.reverse).map fun (after, before) => (before.reverse, after.reverse)

/-- The texts between the occurrences of a character. -/
def splitAll (mark : Char) : List Char → List (List Char)
  | [] => [[]]
  | c :: rest =>
      if c = mark then [] :: splitAll mark rest
      else
        match splitAll mark rest with
        | [] => [[c]]
        | first :: others => (c :: first) :: others

end CpkProvenance.Text
