import CpkProvenance.Digest.Algorithm
import CpkProvenance.Text.Quoted
import CpkProvenance.X509.Certificate

/-!
# Signing certificates

A certificate as a signer of archives is known by its encoding: equality and
order look at the bytes only, and everything shown of it is decoded from them.
The order is by length, and for equal lengths by the first differing byte, read
as a signed number.
-/

namespace CpkProvenance

open Std

structure Certificate where
  encoded : Bytes
  decoded : X509.Certificate
  decode_encoded : X509.Certificate.decode? encoded = some decoded

namespace Certificate

def ofDer? (bytes : Bytes) : Option Certificate :=
  match h : X509.Certificate.decode? bytes with
  | some decoded => some ⟨bytes, decoded, h⟩
  | none => none

theorem ext {a b : Certificate} (h : a.encoded = b.encoded) : a = b := by
  obtain ⟨x, c, hc⟩ := a
  obtain ⟨y, d, hd⟩ := b
  subst h
  obtain rfl : c = d := Option.some.inj (hc.symm.trans hd)
  rfl

instance : DecidableEq Certificate := fun a b =>
  decidable_of_iff (a.encoded = b.encoded) ⟨ext, congrArg encoded⟩

/-- The bytes of the encoding as signed numbers. -/
def signedBytes (c : Certificate) : List Int8 :=
  c.encoded.map UInt8.toInt8

instance : Ord Certificate :=
  ⟨compareLex (compareOn fun c => c.encoded.length) (compareOn signedBytes)⟩

instance : TransOrd Certificate :=
  inferInstanceAs (TransCmp
    (compareLex (compareOn fun c : Certificate => c.encoded.length) (compareOn signedBytes)))

theorem encoded_eq_of_signedBytes {a b : Certificate} (h : a.signedBytes = b.signedBytes) :
    a.encoded = b.encoded :=
  (List.map_inj_right fun _ _ => congrArg Int8.toUInt8).mp h

instance : LawfulEqOrd Certificate where
  compare_self := ReflCmp.compare_self
  eq_of_compare {a b} h := by
    have : compare a.signedBytes b.signedBytes = .eq := (Ordering.then_eq_eq.mp h).2
    exact ext (encoded_eq_of_signedBytes (LawfulEqCmp.eq_of_compare this))

def publicKey (c : Certificate) : Bytes :=
  c.decoded.publicKey.encode

def subject (c : Certificate) : String :=
  c.decoded.subject.display

def issuer (c : Certificate) : String :=
  c.decoded.issuer.display

def display (c : Certificate) : String :=
  "Subject: " ++ c.subject ++ ", Issuer: " ++ c.issuer ++ ", Serial: " ++
    c.decoded.serialText ++ ", SHA-256: " ++
    Bytes.hex (Digest.Algorithm.sha256.digest c.encoded)

def summary (c : Certificate) : String :=
  "Certificate \x7b subject: " ++ Text.quoted c.subject ++ ", len: " ++
    toString c.encoded.length ++ " \x7d"

/-- The text form between armour lines, 64 characters a line. -/
def pem (c : Certificate) : String :=
  let body := (Bytes.pieces 64 (Base64.encode c.encoded)).map fun line =>
    String.ofList (line.map fun b => Char.ofNat b.toNat)
  let lines := ["-----BEGIN CERTIFICATE-----"] ++ body ++ ["-----END CERTIFICATE-----"]
  String.join (lines.map (· ++ "\r\n"))

end Certificate

end CpkProvenance
