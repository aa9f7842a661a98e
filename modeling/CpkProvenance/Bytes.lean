/-!
# Byte strings

A byte string is a list of bytes. This module holds the conversions that every
format of the project shares: big-endian and little-endian numbers of a fixed
width, hexadecimal text, and the pieces in which a reader with a bounded buffer
sees a byte string.
-/

namespace CpkProvenance

abbrev Bytes := List UInt8

namespace Bytes

/-- The number whose base-256 digits are the given bytes, most significant first. -/
def toNatBE (bytes : Bytes) : Nat :=
  bytes.foldl (fun value b => 256 * value + b.toNat) 0

/-- The number whose base-256 digits are the given bytes, least significant first. -/
def toNatLE : Bytes → Nat
  | [] => 0
  | b :: rest => b.toNat + 256 * toNatLE rest

/-- The `width` low base-256 digits of a number, most significant first. -/
def ofNatBE : (width : Nat) → Nat → Bytes
  | 0, _ => []
  | width + 1, value => UInt8.ofNat (value >>> (8 * width)) :: ofNatBE width value

def hexDigit (n : Nat) : Char :=
  if n < 10 then Char.ofNat (48 + n) else Char.ofNat (87 + n)

def hexOfByte (b : UInt8) : List Char :=
  [hexDigit (b.toNat / 16), hexDigit (b.toNat % 16)]

def hex (bytes : Bytes) : String :=
  String.ofList (bytes.flatMap hexOfByte)

/-- The successive pieces that a reader with room for `room` bytes receives.
All but the last have exactly that length, and a reader without room receives
nothing. -/
def pieces (room : Nat) (bytes : Bytes) : List Bytes :=
  if room = 0 ∨ bytes = [] then []
  else bytes.take room :: pieces room (bytes.drop room)
termination_by bytes.length
decreasing_by
  rename_i h
  have : bytes.length ≠ 0 := fun e => h (Or.inr (List.length_eq_zero_iff.mp e))
  simp only [List.length_drop]
  omega

end Bytes

end CpkProvenance
