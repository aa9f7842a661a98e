import CpkProvenance.Bytes

/-!
# UTF-8

Texts as bytes, the strict reading of bytes as text, and a lenient reading that
puts U+FFFD in place of every maximal ill-formed sequence. The lenient reading
follows the table of well-formed sequences: a lead byte fixes how many
continuation bytes follow and narrows the range of the first of them, and what
matches so far is replaced as one unit.
-/

namespace CpkProvenance.Utf8

def encode (text : List Char) : Bytes :=
  text.flatMap String.utf8EncodeChar

def size (text : List Char) : Nat :=
  text.foldr (fun c total => c.utf8Size + total) 0

def decode? (bytes : Bytes) : Option String :=
  String.fromUTF8? ⟨bytes.toArray⟩

/-- What a lead byte announces: the number of continuation bytes, and the range
of the first of them. -/
structure Lead where
  following : Nat
  lowest : UInt8
  highest : UInt8

def lead? (b : UInt8) : Option Lead :=
  if 0xC2 ≤ b ∧ b ≤ 0xDF then some ⟨1, 0x80, 0xBF⟩
  else if b = 0xE0 then some ⟨2, 0xA0, 0xBF⟩
  else if b = 0xED then some ⟨2, 0x80, 0x9F⟩
  else if 0xE1 ≤ b ∧ b ≤ 0xEF then some ⟨2, 0x80, 0xBF⟩
  else if b = 0xF0 then some ⟨3, 0x90, 0xBF⟩
  else if 0xF1 ≤ b ∧ b ≤ 0xF3 then some ⟨3, 0x80, 0xBF⟩
  else if b = 0xF4 then some ⟨3, 0x80, 0x8F⟩
  else none

/-- The continuation bytes at the front of the input, at most `following` of
them, the first one in the given range. -/
def continuation : (following : Nat) → (lowest highest : UInt8) → Bytes → Bytes
  | following + 1, lowest, highest, b :: rest =>
      if lowest ≤ b ∧ b ≤ highest then b :: continuation following 0x80 0xBF rest else []
  | _, _, _, _ => []

/-- The scalar value of a complete sequence: each continuation byte carries six
bits, and the lead byte the rest. -/
def scalar (b : UInt8) (tail : Bytes) : Nat :=
  tail.foldl (fun value c => 64 * value + c.toNat % 64) (b.toNat % (1 <<< (6 - tail.length)))

def replacement : Char := Char.ofNat 0xFFFD

/-- The lenient reading: every byte string is some text. -/
def decodeLossy : Bytes → List Char
  | [] => []
  | b :: rest =>
      if b < 0x80 then Char.ofNat b.toNat :: decodeLossy rest
      else
        match lead? b with
        | none => replacement :: decodeLossy rest
        | some lead =>
            let tail := continuation lead.following lead.lowest lead.highest rest
            let c := if tail.length = lead.following then Char.ofNat (scalar b tail)
              else replacement
            c :: decodeLossy (rest.drop tail.length)
termination_by bytes => bytes.length

end CpkProvenance.Utf8
