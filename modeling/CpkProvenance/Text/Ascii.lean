/-!
# Letter case of ASCII

Comparison and change of case that touch the letters A to Z only. The case maps
of characters in the standard library have exactly this range.
-/

namespace CpkProvenance.Text

def upper (text : String) : String :=
  String.ofList (text.toList.map Char.toUpper)

def lower (text : String) : String :=
  String.ofList (text.toList.map Char.toLower)

def equalIgnoringCase (a b : String) : Bool :=
  lower a == lower b

/-- What remains of a text after the given beginning. -/
def dropStart? (start text : String) : Option String :=
  if start.toList.isPrefixOf text.toList then
    some (String.ofList (text.toList.drop start.toList.length))
  else none

/-- What remains of a text before the given end. -/
def dropEnd? (tail text : String) : Option String :=
  if tail.toList.isSuffixOf text.toList then
    some (String.ofList (text.toList.take (text.toList.length - tail.toList.length)))
  else none

end CpkProvenance.Text
