import CpkProvenance.Xml.Markup

/-!
# Events

What an XML text tells a reader, in order: tags with their attributes, and
texts with their references resolved. Pieces that do not belong to the content are
dropped. The events stop where the pieces do, or where a text or a tag is malformed,
so a reader meets a fault only after everything that comes before it.
-/

namespace CpkProvenance.Xml

inductive Event
  | openTag (tag : Tag)
  | emptyTag (tag : Tag)
  | closeTag
  | text (text : String)
  deriving DecidableEq, Repr

inductive Fault
  | markup (fault : MarkupFault)
  | text (fault : EscapeFault)
  | tag (fault : TagFault)
  deriving DecidableEq, Repr

def Fault.message : Fault → String
  | .markup fault => "malformed XML: " ++ fault.message
  | .text fault => "malformed text: " ++ fault.message
  | .tag (.attribute name fault) =>
      "malformed attribute on <" ++ name ++ ">: " ++ fault.message
  | .tag (.value fault) => "malformed attribute value: " ++ fault.message

/-- What follows the last event. -/
inductive Ending
  | endOfInput
  | fault (fault : Fault)
  deriving DecidableEq, Repr

structure Reading where
  events : List Event
  ending : Ending
  deriving DecidableEq, Repr

def Event.ofMarkup : Markup → Except Fault Event
  | .text raw => ((unescape raw).map fun text => .text (String.ofList text)).mapError .text
  | .data raw => .ok (.text (String.ofList raw))
  | .openTag content => ((Tag.ofContent content).map .openTag).mapError .tag
  | .emptyTag content => ((Tag.ofContent content).map .emptyTag).mapError .tag
  | .closeTag _ => .ok .closeTag

def Piece.markup? : Piece → Option Markup
  | .markup m => some m
  | .comment _ | .instruction _ | .doctype _ => none

/-- The pieces of content among some pieces. Comments, instructions and document types
are dropped. -/
def significant (pieces : List Piece) : List Markup :=
  pieces.filterMap Piece.markup?

namespace Reading

def push (event : Event) (r : Reading) : Reading := ⟨event :: r.events, r.ending⟩

def ofMarkup (ending : Ending) : List Markup → Reading
  | [] => ⟨[], ending⟩
  | m :: rest =>
      match Event.ofMarkup m with
      | .error fault => ⟨[], .fault fault⟩
      | .ok event => push event (ofMarkup ending rest)

def ofPieces (pieces : Pieces) : Reading :=
  ofMarkup (pieces.fault?.elim .endOfInput fun fault => .fault (.markup fault))
    (significant pieces.toList)

def ofText (text : List Char) : Reading :=
  ofPieces (Pieces.ofText text)

end Reading

end CpkProvenance.Xml
