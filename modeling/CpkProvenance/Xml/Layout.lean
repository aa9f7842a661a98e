import CpkProvenance.Xml.Tag

/-!
# Layout

Documents are written one tag a line, indented by two spaces a level. An element
that holds nothing but text stands on one line, and its text is not indented.
-/

namespace CpkProvenance.Xml

inductive Item
  | openTag (tag : Tag)
  | closeTag (name : String)
  | emptyTag (tag : Tag)
  | leaf (tag : Tag) (text : String)
  deriving DecidableEq, Repr

namespace Attribute

def render (a : Attribute) : List Char :=
  ' ' :: (a.key.toList ++ '=' :: '\x22' :: (escape a.value.toList ++ ['\x22']))

end Attribute

namespace Tag

def render (t : Tag) : List Char :=
  t.name.toList ++ t.attributes.flatMap Attribute.render

end Tag

namespace Item

def closing (name : String) : List Char :=
  '<' :: '/' :: (name.toList ++ ['>'])

def render : Item → List Char
  | .openTag tag => '<' :: (tag.render ++ ['>'])
  | .closeTag name => closing name
  | .emptyTag tag => '<' :: (tag.render ++ ['/', '>'])
  | .leaf tag text => '<' :: (tag.render ++ '>' :: (escape text.toList ++ closing tag.name))

/-- The level of a line, and the level of what follows it. -/
def depths (depth : Nat) : Item → Nat × Nat
  | .openTag _ => (depth, depth + 1)
  | .closeTag _ => (depth - 1, depth - 1)
  | _ => (depth, depth)

/-- The lines, each after a line break. -/
def layout (depth : Nat) : List Item → List Char
  | [] => []
  | item :: rest =>
      let (own, next) := item.depths depth
      '\n' :: (List.replicate (2 * own) ' ' ++ (item.render ++ layout next rest))

end Item

def declaration : List Char :=
  "<?xml version=\"1.0\" encoding=\"UTF-8\"?>".toList

def document (items : List Item) : String :=
  String.ofList (declaration ++ (Item.layout 0 items ++ ['\n']))

end CpkProvenance.Xml
