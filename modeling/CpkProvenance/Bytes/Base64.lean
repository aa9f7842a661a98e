import CpkProvenance.Bytes

/-!
# Base64

The standard alphabet with padding. Three bytes become four symbols; one or two
bytes at the end become two or three symbols and as many padding signs as make
four. Reading accepts exactly what writing produces, and otherwise says what is
wrong first: all groups but the last hold symbols only, and the last group, the
last one to four bytes of the text, may end in padding and must leave no bits.
-/

namespace CpkProvenance.Base64

def pad : UInt8 := 61

def symbol (n : Nat) : UInt8 :=
  UInt8.ofNat <|
    if n < 26 then 65 + n
    else if n < 52 then 71 + n
    else if n < 62 then n - 4
    else if n = 62 then 43
    else 47

def value? (b : UInt8) : Option Nat :=
  let n := b.toNat
  if 65 ≤ n ∧ n ≤ 90 then some (n - 65)
  else if 97 ≤ n ∧ n ≤ 122 then some (n - 71)
  else if 48 ≤ n ∧ n ≤ 57 then some (n + 4)
  else if n = 43 then some 62
  else if n = 47 then some 63
  else none

def encode : Bytes → Bytes
  | a :: b :: c :: rest =>
      symbol (a.toNat / 4) :: symbol (a.toNat % 4 * 16 + b.toNat / 16) ::
        symbol (b.toNat % 16 * 4 + c.toNat / 64) :: symbol (c.toNat % 64) :: encode rest
  | [a, b] =>
      [symbol (a.toNat / 4), symbol (a.toNat % 4 * 16 + b.toNat / 16),
        symbol (b.toNat % 16 * 4), pad]
  | [a] => [symbol (a.toNat / 4), symbol (a.toNat % 4 * 16), pad, pad]
  | [] => []

def encodeText (bytes : Bytes) : String :=
  String.ofList ((encode bytes).map fun b => Char.ofNat b.toNat)

/-- Why a text is no written form. Offsets count bytes from its start. -/
inductive Fault
  | invalidSymbol (byte : UInt8) (offset : Nat)
  | invalidLength (length : Nat)
  | invalidPadding
  | invalidLastSymbol (byte : UInt8) (offset : Nat)
  deriving DecidableEq, Repr

def Fault.message : Fault → String
  | .invalidSymbol byte offset => s!"Invalid symbol {byte.toNat}, offset {offset}."
  | .invalidLength length => s!"Invalid input length: {length}"
  | .invalidPadding => "Invalid padding"
  | .invalidLastSymbol byte offset => s!"Invalid last symbol {byte.toNat}, offset {offset}."

def values (offset : Nat) : Bytes → Except Fault (List Nat)
  | [] => .ok []
  | b :: rest =>
      match value? b with
      | none => .error (.invalidSymbol b offset)
      | some v => (values (offset + 1) rest).map (v :: ·)

/-- The bytes of two, three or four numbers below sixty-four, and the bits that
are left over. -/
def join : List Nat → Bytes × Nat
  | [a, b] => ([UInt8.ofNat (a * 4 + b / 16)], b % 16)
  | [a, b, c] => ([UInt8.ofNat (a * 4 + b / 16), UInt8.ofNat (b % 16 * 16 + c / 4)], c % 4)
  | [a, b, c, d] =>
      ([UInt8.ofNat (a * 4 + b / 16), UInt8.ofNat (b % 16 * 16 + c / 4),
        UInt8.ofNat (c % 4 * 64 + d)], 0)
  | _ => ([], 0)

/-- Reads the last group, whose first byte stands at `offset`. -/
def decodeLast (offset : Nat) (group : Bytes) : Except Fault Bytes := do
  let symbols := group.takeWhile (· != pad)
  let padding := group.dropWhile (· != pad)
  let numbers ← values offset symbols
  if padding ≠ [] ∧ symbols.length < 2 then
    throw (.invalidSymbol pad (offset + symbols.length))
  if padding.any (· != pad) then
    throw (.invalidSymbol pad (offset + symbols.length))
  if symbols.length < 2 then
    throw (.invalidLength (offset + symbols.length))
  if group.length ≠ 4 then
    throw .invalidPadding
  let (bytes, leftover) := join numbers
  if leftover ≠ 0 then
    throw (.invalidLastSymbol (symbols.getLast?.getD pad) (offset + symbols.length - 1))
  return bytes

/-- Reads group after group; a group is not the last if a fifth byte follows. -/
def decodeGroups (offset : Nat) : Bytes → Except Fault Bytes
  | a :: b :: c :: d :: e :: rest => do
      let numbers ← values offset [a, b, c, d]
      let tail ← decodeGroups (offset + 4) (e :: rest)
      return (join numbers).1 ++ tail
  | group => decodeLast offset group

/-- The bytes that a text stands for. A last byte that stands alone and is no
symbol is reported before anything else. -/
def decode (text : Bytes) : Except Fault Bytes :=
  match text.getLast? with
  | none => .ok []
  | some last =>
      if text.length % 4 = 1 ∧ last ≠ pad ∧ value? last = none then
        .error (.invalidSymbol last (text.length - 1))
      else decodeGroups 0 text

end CpkProvenance.Base64
