import CpkProvenance.Manifest.Digests

/-!
# Digests of streams

A message that arrives in pieces has the digest of the whole message, however it
is cut. A stream that has received a message is determined by the message alone:
one update appends to it, hence so does a run of updates. Nothing is assumed of
the compression function.
-/

namespace CpkProvenance

namespace Bytes

/-- A reader with room for at least one byte receives every byte, in order. -/
theorem flatten_pieces {room : Nat} (h : room ≠ 0) (bytes : Bytes) :
    (pieces room bytes).flatten = bytes := by
  fun_induction pieces room bytes with
  | case1 bytes he =>
      obtain he | rfl := he
      · exact absurd he h
      · rfl
  | case2 bytes _ ih => rw [List.flatten_cons, ih, List.take_append_drop]

end Bytes

namespace Digest

namespace Construction

variable (c : Construction)

theorem absorb_of_short {chain : c.Chain} {data : Bytes} (h : data.length < c.blockSize) :
    c.absorb chain data = (chain, data) := by
  rw [absorb, if_pos]
  rw [List.length_take]
  omega

theorem absorb_of_block {chain : c.Chain} {data : Bytes} (h : c.blockSize ≤ data.length) :
    c.absorb chain data =
      c.absorb (c.compress chain (data.take c.blockSize)) (data.drop c.blockSize) := by
  rw [absorb, if_neg]
  rw [List.length_take]
  omega

/-- Data may be absorbed up to any point, if what is left over there is put in
front of the rest. -/
theorem absorb_append (chain : c.Chain) (front rest : Bytes) :
    c.absorb chain (front ++ rest) =
      c.absorb (c.absorb chain front).1 ((c.absorb chain front).2 ++ rest) := by
  fun_induction c.absorb chain front with
  | case1 chain front _ => rfl
  | case2 chain front h ih =>
      have hle : c.blockSize ≤ front.length := by
        rw [List.length_take] at h
        omega
      have hsum : c.blockSize ≤ (front ++ rest).length := by
        rw [List.length_append]
        omega
      rw [c.absorb_of_block hsum, List.take_append_of_le_length hle,
        List.drop_append_of_le_length hle, ih]

end Construction

namespace Stream

variable {c : Construction}

/-- The stream that has received a message. -/
def ofMessage (message : Bytes) : Stream c :=
  ⟨(c.absorb c.start message).1, (c.absorb c.start message).2, message.length⟩

theorem empty_eq_ofMessage : (empty : Stream c) = ofMessage [] := by
  have h : c.absorb c.start [] = (c.start, []) := c.absorb_of_short c.blockSize_pos
  rw [ofMessage, h]
  rfl

theorem update_ofMessage (message piece : Bytes) :
    (ofMessage message : Stream c).update piece = ofMessage (message ++ piece) := by
  simp only [update, ofMessage, c.absorb_append c.start message piece, List.length_append]

theorem foldl_update_ofMessage (message : Bytes) (pieces : List Bytes) :
    pieces.foldl update (ofMessage message : Stream c) =
      ofMessage (message ++ pieces.flatten) := by
  induction pieces generalizing message with
  | nil => rw [List.foldl_nil, List.flatten_nil, List.append_nil]
  | cons piece pieces ih =>
      rw [List.foldl_cons, update_ofMessage, ih, List.flatten_cons, List.append_assoc]

theorem finish_ofMessage (message : Bytes) :
    (ofMessage message : Stream c).finish = c.digest message := by
  rw [finish, Construction.digest, c.absorb_append c.start message]
  rfl

theorem finish_foldl_update (pieces : List Bytes) :
    (pieces.foldl update (empty : Stream c)).finish = c.digest pieces.flatten := by
  rw [empty_eq_ofMessage, foldl_update_ofMessage, finish_ofMessage, List.nil_append]

end Stream

end Digest

namespace Manifest.RecordedDigest

theorem isOfPieces_eq_isOf_flatten (d : RecordedDigest) (pieces : List Bytes) :
    d.isOfPieces pieces = d.isOf pieces.flatten := by
  rw [isOfPieces, isOf, Digest.Stream.finish_foldl_update]
  rfl

/-- Reading through a buffer does not show in the digest. -/
theorem isOfPieces_pieces {room : Nat} (h : room ≠ 0) (d : RecordedDigest) (bytes : Bytes) :
    d.isOfPieces (Bytes.pieces room bytes) = d.isOf bytes := by
  rw [isOfPieces_eq_isOf_flatten, Bytes.flatten_pieces h]

end Manifest.RecordedDigest

end CpkProvenance
