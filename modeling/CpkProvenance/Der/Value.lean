import CpkProvenance.Der.Element

/-!
# DER values

Primitive values. Integers, bit strings and times keep their content bytes, so
that they are written again exactly as they were read; the checks here are on
their form only.
-/

namespace CpkProvenance.Der

/-- An object identifier by its content bytes. -/
structure Oid where
  content : Bytes
  deriving DecidableEq, Repr

namespace Oid

/-- The arcs of a sequence of base-128 numbers, or none if the last one is cut
off; `read` bytes of the first one have been taken. Arcs have 32 bits, from which
the leading ones of five bytes are dropped, and the last of five bytes has only
its four low bits. -/
def arcs? (value read : Nat) : Bytes → Option (List Nat)
  | [] => if read = 0 then some [] else none
  | b :: rest =>
      let next := (128 * value + b.toNat % 128) % 0x100000000
      if 4 ≤ read ∧ 0x10 ≤ b then none
      else if b < 0x80 then (arcs? 0 0 rest).map (next :: ·)
      else arcs? next (read + 1) rest

/-- An identifier has three to thirty-nine bytes; the first holds two arcs. -/
def ofContent? (content : Bytes) : Option Oid :=
  match content with
  | [] => none
  | first :: rest =>
      if content.length < 3 ∨ 39 < content.length ∨ 120 ≤ first then none
      else (arcs? 0 0 rest).map fun _ => ⟨content⟩

def ofElement? (e : Element) : Option Oid :=
  (e.content? 0x06).bind ofContent?

def encode (o : Oid) : Bytes := encodeAs 0x06 o.content

def arcs (o : Oid) : List Nat :=
  match o.content with
  | [] => []
  | first :: rest =>
      first.toNat / 40 :: first.toNat % 40 :: (arcs? 0 0 rest).getD []

def dotted (o : Oid) : String :=
  ".".intercalate (o.arcs.map fun n => toString n)

end Oid

/-- The content of an integer, which is not empty and has no redundant first
byte. -/
def integer? (e : Element) : Option Bytes := do
  let content ← e.content? 0x02
  match content with
  | [] => none
  | [_] => some content
  | a :: b :: _ =>
      if (a = 0x00 ∧ b < 0x80) ∨ (a = 0xFF ∧ 0x80 ≤ b) then none else some content

def version? (limit : Nat) (e : Element) : Option Nat := do
  let content ← integer? e
  match content with
  | [b] => if b.toNat ≤ limit then some b.toNat else none
  | _ => none

/-- A serial number: an integer of at most twenty-one bytes. -/
def serial? (e : Element) : Option Bytes := do
  let content ← integer? e
  if content.length ≤ 21 then some content else none

def boolean? (e : Element) : Option Bool := do
  let content ← e.content? 0x01
  match content with
  | [b] => if b = 0x00 then some false else if b = 0xFF then some true else none
  | _ => none

/-- Checks the content of a bit string: its first byte counts the unused bits of
the last one. -/
def bitContent? (content : Bytes) : Option Bytes :=
  match content with
  | [] => none
  | unused :: bits => if 7 < unused ∨ (unused ≠ 0 ∧ bits = []) then none else some content

def bitString? (e : Element) : Option Bytes :=
  (e.content? 0x03).bind bitContent?

def octetString? (e : Element) : Option Bytes :=
  e.content? 0x04

def twoDigits? (a b : UInt8) : Option Nat :=
  if 48 ≤ a ∧ a ≤ 57 ∧ 48 ≤ b ∧ b ≤ 57 then
    some (10 * (a.toNat - 48) + (b.toNat - 48))
  else none

def daysIn (year month : Nat) : Nat :=
  if month = 2 then
    if year % 4 = 0 ∧ (year % 100 ≠ 0 ∨ year % 400 = 0) then 29 else 28
  else if month = 4 ∨ month = 6 ∨ month = 9 ∨ month = 11 then 30
  else 31

/-- The pairs of digits of a time, which ends in `Z`. -/
def digitPairs? : Bytes → Option (List Nat)
  | [90] => some []
  | a :: b :: rest => do
      let n ← twoDigits? a b
      let others ← digitPairs? rest
      return n :: others
  | _ => none

def isMoment (year month day hour minute second : Nat) : Bool :=
  1970 ≤ year && 1 ≤ month && month ≤ 12 && 1 ≤ day && day ≤ daysIn year month &&
    hour ≤ 23 && minute ≤ 59 && second ≤ 59

/-- Whether an element is a time: with a year of two digits from 1970 to 2049,
or with a year of four digits from 1970 on. -/
def isTime (e : Element) : Bool :=
  match e.tag, digitPairs? e.content with
  | 0x17, some [y, m, d, h, i, s] => isMoment (if y < 50 then 2000 + y else 1900 + y) m d h i s
  | 0x18, some [c, y, m, d, h, i, s] => isMoment (100 * c + y) m d h i s
  | _, _ => false

end CpkProvenance.Der
