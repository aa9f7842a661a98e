import CpkProvenance.Xml.Event

/-!
# Content

The tree of a text, as it looks from a position: what follows up to the end of
the enclosing element. An element holds its own content and is followed by the
rest. If the text stops inside an element, its content ends in that stop, and so
does everything after it; walking the tree in order therefore meets the stop
exactly where reading the text does.
-/

namespace CpkProvenance.Xml

inductive Content
  | close
  | stop (ending : Ending)
  | text (text : String) (rest : Content)
  | empty (tag : Tag) (rest : Content)
  | element (tag : Tag) (body rest : Content)
  deriving DecidableEq, Repr

namespace Content

/-- The contents that start at the given events: up to the end of the enclosing
element, after that element, after the element around it, and so on. Where the
list ends, only the stop follows. -/
def levels (ending : Ending) : List Event → List Content
  | [] => []
  | .closeTag :: events => .close :: levels ending events
  | .text t :: events =>
      let above := levels ending events
      .text t (above.headD (.stop ending)) :: above.tail
  | .emptyTag tag :: events =>
      let above := levels ending events
      .empty tag (above.headD (.stop ending)) :: above.tail
  | .openTag tag :: events =>
      let above := levels ending events
      .element tag (above.headD (.stop ending)) (above.tail.headD (.stop ending)) ::
        above.tail.tail

def ofReading (r : Reading) : Content :=
  (levels r.ending r.events).headD (.stop r.ending)

def ofText (text : String) : Content :=
  ofReading (Reading.ofText text.toList)

end Content

end CpkProvenance.Xml
