import CpkProvenance.Xml.Escape

/-!
# Tags

A tag has a name and attributes. Its content is the text between the brackets:
the name up to the first space, then attributes with quoted values. Faults carry
the byte offset in the content at which they show.
-/

namespace CpkProvenance.Xml

structure Attribute where
  key : String
  value : String
  deriving DecidableEq, Repr

structure Tag where
  name : String
  attributes : List Attribute
  deriving DecidableEq, Repr

namespace Tag

/-- The name after its first colon, or the whole name if it has none. -/
def localName (t : Tag) : String :=
  match t.name.toList.dropWhile (· != ':') with
  | _ :: rest => String.ofList rest
  | [] => t.name

/-- The value of the attribute with exactly the given key. -/
def attribute? (t : Tag) (key : String) : Option String :=
  (t.attributes.find? (·.key == key)).map (·.value)

end Tag

/-- Why the content of a tag is malformed after its name. -/
inductive AttributeFault
  | expectedEquals (position : Nat)
  | duplicated (position previous : Nat)
  | expectedValue (position : Nat)
  | unquotedValue (position : Nat)
  | unclosedValue (position : Nat) (quote : Char)
  deriving DecidableEq, Repr

def AttributeFault.message : AttributeFault → String
  | .expectedEquals position =>
      s!"position {position}: attribute key must be directly followed by `=` or space"
  | .duplicated position previous =>
      s!"position {position}: duplicated attribute, previous declaration at position {previous}"
  | .expectedValue position =>
      s!"position {position}: `=` must be followed by an attribute value"
  | .unquotedValue position =>
      s!"position {position}: attribute value must be enclosed in `\"` or `'`"
  | .unclosedValue position quote =>
      s!"position {position}: missing closing quote `{quote}` in attribute value"

/-- Why a tag cannot be read: its attributes are malformed, or a value is. -/
inductive TagFault
  | attribute (tag : String) (fault : AttributeFault)
  | value (fault : EscapeFault)
  deriving DecidableEq, Repr

def isSpace (c : Char) : Bool :=
  c == ' ' || c == '\t' || c == '\n' || c == '\r'

def isQuote (c : Char) : Bool :=
  c == '\x22' || c == '\x27'

def inKey (c : Char) : Bool :=
  c != '=' && !isSpace c

/-- Reads the attributes in the rest of the content of a tag, which has `total`
bytes. The keys read so far come with the text from them on. A key may begin with
any character but a space, and an attribute may follow the quote of the one before
it directly. -/
def attributesFrom (tag : String) (total : Nat) (seen : List (String × List Char))
    (input : List Char) : Except TagFault (List Attribute) :=
  match _hInput : input.dropWhile isSpace with
  | [] => .ok []
  | c :: rest =>
      let key := String.ofList (c :: rest.takeWhile inKey)
      match _hEquals : (rest.dropWhile inKey).dropWhile isSpace with
      | '=' :: assigned =>
          match seen.find? (·.1 == key) with
          | some previous =>
              .error (.attribute tag
                (.duplicated (total - Utf8.size (c :: rest)) (total - Utf8.size previous.2)))
          | none =>
              match _hQuote : assigned.dropWhile isSpace with
              | [] => .error (.attribute tag (.expectedValue total))
              | quote :: body =>
                  if isQuote quote then
                    match _hClose : body.dropWhile (· != quote) with
                    | [] => .error (.attribute tag (.unclosedValue total quote))
                    | _ :: next =>
                        match unescape (body.takeWhile (· != quote)) with
                        | .error fault => .error (.value fault)
                        | .ok value => do
                            let others ←
                              attributesFrom tag total ((key, c :: rest) :: seen) next
                            return ⟨key, String.ofList value⟩ :: others
                  else
                    .error (.attribute tag (.unquotedValue (total - Utf8.size (quote :: body))))
      | other => .error (.attribute tag (.expectedEquals (total - Utf8.size other)))
termination_by input.length
decreasing_by
  have h₁ := (List.dropWhile_sublist isSpace (l := input)).length_le
  have h₂ := (List.dropWhile_sublist inKey (l := rest)).length_le
  have h₃ := (List.dropWhile_sublist isSpace (l := rest.dropWhile inKey)).length_le
  have h₄ := (List.dropWhile_sublist isSpace (l := assigned)).length_le
  have h₅ := (List.dropWhile_sublist (· != quote) (l := body)).length_le
  simp only [_hInput, _hEquals, _hQuote, _hClose, List.length_cons] at h₁ h₂ h₃ h₄ h₅
  omega

def tagName (content : List Char) : List Char :=
  content.takeWhile (!isSpace ·)

def Tag.ofContent (content : List Char) : Except TagFault Tag := do
  let name := String.ofList (tagName content)
  let bare : Tag := ⟨name, []⟩
  let attributes ←
    attributesFrom bare.localName (Utf8.size content) [] (content.dropWhile (!isSpace ·))
  return ⟨name, attributes⟩

end CpkProvenance.Xml
