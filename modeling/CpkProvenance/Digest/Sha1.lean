import CpkProvenance.Digest.Construction
import CpkProvenance.Digest.Words

/-!
# SHA-1

Five words of 32 bits, 80 rounds in four groups of twenty.
-/

namespace CpkProvenance.Digest.Sha1

structure State where
  a : UInt32
  b : UInt32
  c : UInt32
  d : UInt32
  e : UInt32
  deriving DecidableEq, Repr

def start : State := ⟨0x67452301, 0xEFCDAB89, 0x98BADCFE, 0x10325476, 0xC3D2E1F0⟩

def nextWord (ws : Array UInt32) : UInt32 :=
  rotateLeft32 (wordBack 0 ws 3 ^^^ wordBack 0 ws 8 ^^^ wordBack 0 ws 14 ^^^ wordBack 0 ws 16) 1

def mix (round : Nat) (b c d : UInt32) : UInt32 :=
  if round < 20 then (b &&& c) ||| (~~~b &&& d)
  else if round < 40 then b ^^^ c ^^^ d
  else if round < 60 then (b &&& c) ||| (b &&& d) ||| (c &&& d)
  else b ^^^ c ^^^ d

def constant (round : Nat) : UInt32 :=
  if round < 20 then 0x5A827999
  else if round < 40 then 0x6ED9EBA1
  else if round < 60 then 0x8F1BBCDC
  else 0xCA62C1D6

def step (s : State) (round : Nat) (w : UInt32) : State :=
  ⟨rotateLeft32 s.a 5 + mix round s.b s.c s.d + s.e + constant round + w, s.a,
    rotateLeft32 s.b 30, s.c, s.d⟩

/-- The rounds from the given one on, one for each word. -/
def rounds (s : State) (round : Nat) : List UInt32 → State
  | [] => s
  | w :: ws => rounds (step s round w) (round + 1) ws

def compress (s : State) (block : Bytes) : State :=
  let r := rounds s 0 (schedule nextWord 64 (words32 block).toArray).toList
  ⟨s.a + r.a, s.b + r.b, s.c + r.c, s.d + r.d, s.e + r.e⟩

def output (s : State) : Bytes :=
  [s.a, s.b, s.c, s.d, s.e].flatMap bytes32

def construction : Construction where
  Chain := State
  blockSize := 64
  lengthSize := 8
  start := start
  compress := compress
  output := output
  blockSize_pos := Nat.succ_pos (nat_lit 63)

end CpkProvenance.Digest.Sha1
