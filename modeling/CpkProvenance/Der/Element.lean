import CpkProvenance.Bytes

/-!
# DER elements

An element is a tag and its content. Lengths are definite and written in as few
bytes as possible, and only known tags are read. The content of a constructed
element is itself a sequence of elements without anything left over.
-/

namespace CpkProvenance.Der

structure Element where
  tag : UInt8
  content : Bytes
  deriving DecidableEq, Repr

def universalTags : List UInt8 :=
  [0x01, 0x02, 0x03, 0x04, 0x05, 0x06, 0x09, 0x0A, 0x0C, 0x12, 0x13, 0x14, 0x15, 0x16, 0x17,
    0x18, 0x1A, 0x1E, 0x30, 0x31]

/-- Whether a tag is read: a universal one, or a tag of another class whose
number fits into one byte. -/
def isKnownTag (tag : UInt8) : Bool :=
  if tag < 0x40 then universalTags.contains tag else tag % 32 < 31

/-- Reads a length in its shortest form. -/
def length? : Bytes → Option (Nat × Bytes)
  | [] => none
  | b :: rest =>
      if b < 0x80 then some (b.toNat, rest)
      else
        let width := b.toNat - 0x80
        let digits := rest.take width
        let value := Bytes.toNatBE digits
        if width = 0 ∨ 4 < width ∨ digits.length < width then none
        else if value < 0x80 ∨ digits.head? = some 0 then none
        else some (value, rest.drop width)

def element? : Bytes → Option (Element × Bytes)
  | [] => none
  | tag :: rest =>
      match length? rest with
      | none => none
      | some (n, body) =>
          if isKnownTag tag ∧ (body.take n).length = n then
            some (⟨tag, body.take n⟩, body.drop n)
          else none

theorem length?_length {bytes rest : Bytes} {n : Nat} (h : length? bytes = some (n, rest)) :
    rest.length ≤ bytes.length := by
  unfold length? at h
  split at h
  · simp at h
  · split at h
    · obtain ⟨_, rfl⟩ := Prod.mk.inj (Option.some.inj h)
      simp
    · dsimp only at h
      split at h
      · simp at h
      · split at h
        · simp at h
        · obtain ⟨_, rfl⟩ := Prod.mk.inj (Option.some.inj h)
          simp only [List.length_drop, List.length_cons]
          omega

theorem element?_length {bytes rest : Bytes} {e : Element}
    (h : element? bytes = some (e, rest)) : rest.length < bytes.length := by
  unfold element? at h
  split at h
  · simp at h
  · split at h
    · simp at h
    · next n body hn =>
        split at h
        · obtain ⟨_, rfl⟩ := Prod.mk.inj (Option.some.inj h)
          have := length?_length hn
          simp only [List.length_drop, List.length_cons]
          omega
        · simp at h

/-- All elements of a byte string, if it consists of elements. -/
def elements? (bytes : Bytes) : Option (List Element) :=
  if bytes = [] then some []
  else
    match _h : element? bytes with
    | none => none
    | some (e, rest) => (elements? rest).map (e :: ·)
termination_by bytes.length
decreasing_by exact element?_length _h

def single? (bytes : Bytes) : Option Element :=
  match elements? bytes with
  | some [e] => some e
  | _ => none

def encodeLength (n : Nat) : Bytes :=
  if n < 0x80 then [UInt8.ofNat n]
  else
    let width := if n < 0x100 then 1 else if n < 0x10000 then 2 else if n < 0x1000000 then 3 else 4
    UInt8.ofNat (0x80 + width) :: Bytes.ofNatBE width n

namespace Element

def encode (e : Element) : Bytes :=
  e.tag :: (encodeLength e.content.length ++ e.content)

def content? (tag : UInt8) (e : Element) : Option Bytes :=
  if e.tag = tag then some e.content else none

def children? (tag : UInt8) (e : Element) : Option (List Element) :=
  (e.content? tag).bind elements?

/-- The class and number of a context-specific tag. -/
def contextNumber? (e : Element) : Option Nat :=
  if e.tag / 64 = 2 then some (e.tag.toNat % 32) else none

end Element

def encodeAs (tag : UInt8) (content : Bytes) : Bytes :=
  Element.encode ⟨tag, content⟩

/-- Takes the context-specific element of a number from the front of a list.
Context-specific elements with lower numbers are passed over on the way. -/
def takeContext (number : Nat) : List Element → Option Element × List Element
  | [] => (none, [])
  | e :: rest =>
      match e.contextNumber? with
      | none => (none, e :: rest)
      | some n =>
          if n = number then (some e, rest)
          else if n < number then takeContext number rest
          else (none, e :: rest)

/-- Comparison of encodings in a set: the shorter first, then byte by byte. -/
def compareEncodings (a b : Bytes) : Ordering :=
  (compare a.length b.length).then (compare a b)

/-- Puts a member in its place in a set. A member that is already there is
refused, if it is `whole`. -/
def insertMember? {α : Type} (encode : α → Bytes) (whole : α → Bool) (a : α) :
    List α → Option (List α)
  | [] => some [a]
  | b :: rest =>
      match compareEncodings (encode a) (encode b) with
      | .lt => some (a :: b :: rest)
      | .eq => if whole a then none else some (a :: b :: rest)
      | .gt => (insertMember? encode whole a rest).map (b :: ·)

/-- Puts the members of a set in order. Equal members are refused, except that
members which lack an optional field are never taken as equal. -/
def setOf? {α : Type} (encode : α → Bytes) (whole : α → Bool) : List α → Option (List α)
  | [] => some []
  | a :: rest => (setOf? encode whole rest).bind (insertMember? encode whole a)

end CpkProvenance.Der
