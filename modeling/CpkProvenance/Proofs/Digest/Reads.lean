import CpkProvenance.Proofs.Digest.Stream

/-!
# Reading block by block

A reader with a buffer takes a content in blocks. Each fills some of the buffer, and how
much is not up to the reader: blocks of the size of the buffer are one run among many. A
state that is determined by what was received so far is the same at the end of all runs. The
state of a hasher is such a one, so that no run shows in a digest.
-/

namespace CpkProvenance

namespace Bytes

variable {σ : Type} {room : Nat} {step : σ → Bytes → σ}

/-- A run of a reader with some room over a content, from one state to another. A block of
no bytes would be taken for the end. -/
inductive Reads (room : Nat) (step : σ → Bytes → σ) : σ → Bytes → σ → Prop
  | done (s : σ) : Reads room step s [] s
  | block {s last : σ} {block rest : Bytes} (nonempty : block ≠ []) (fits : block.length ≤ room)
      (h : Reads room step (step s block) rest last) : Reads room step s (block ++ rest) last

/-- Blocks as large as they can be are one way to read a content. -/
theorem reads_pieces (h : room ≠ 0) (content : Bytes) (s : σ) :
    Reads room step s content ((pieces room content).foldl step s) := by
  fun_induction pieces room content generalizing s with
  | case1 content he =>
      obtain he | rfl := he
      · exact absurd he h
      · exact .done s
  | case2 content he ih =>
      rw [not_or] at he
      have hblock : content.take room ≠ [] := by
        rw [Ne, List.take_eq_nil_iff]
        exact not_or.mpr he
      have hread := Reads.block hblock (List.length_take_le room content)
        (ih (step s (content.take room)))
      rwa [List.take_append_drop] at hread

/-- Whatever the blocks, a state that is determined by what was received so far ends as if the
content came at once. -/
theorem Reads.eq_of_step {received : Bytes → σ}
    (hstep : ∀ message block, step (received message) block = received (message ++ block))
    {message content : Bytes} {last : σ} (h : Reads room step (received message) content last) :
    last = received (message ++ content) := by
  generalize hs : received message = s at h
  induction h generalizing message with
  | done s => rw [← hs, List.append_nil]
  | @block s last block rest nonempty fits h ih =>
      rw [← List.append_assoc]
      refine ih ?_
      rw [← hs, hstep]

end Bytes

namespace Digest.Stream

theorem finish_of_reads {c : Construction} {room : Nat} {content : Bytes} {last : Stream c}
    (h : Bytes.Reads room update empty content last) : last.finish = c.digest content := by
  rw [empty_eq_ofMessage] at h
  rw [h.eq_of_step update_ofMessage, List.nil_append, finish_ofMessage]

end Digest.Stream

end CpkProvenance
