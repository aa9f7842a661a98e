import CpkProvenance.Traced

/-!
# Updates

A traced computation that changes a state. The state is there also after a failure,
with whatever was changed before it: an update that is to leave no trace when it
fails must not change anything too early.
-/

namespace CpkProvenance

/-- What an update gives, with the state after it. -/
structure Outcome (σ α : Type) extends Traced α where
  state : σ

def Update (σ α : Type) : Type := σ → Outcome σ α

namespace Outcome

variable {σ α β : Type}

/-- Goes on from a result, in the state that it was reached in. -/
def andThen (x : Outcome σ α) (f : α → Update σ β) : Outcome σ β :=
  match x.result with
  | .error failure => ⟨⟨x.log, x.reads, .error failure⟩, x.state⟩
  | .ok a =>
      let y := f a x.state
      ⟨⟨x.log ++ y.log, x.reads + y.reads, y.result⟩, y.state⟩

end Outcome

namespace Update

variable {σ α : Type}

instance : Monad (Update σ) where
  pure a := fun s => ⟨pure a, s⟩
  bind x f := fun s => (x s).andThen f

/-- A computation that looks at the state and leaves it alone. -/
def reading (f : σ → Traced α) : Update σ α := fun s => ⟨f s, s⟩

def lift (x : Traced α) : Update σ α := reading fun _ => x

def gets (f : σ → α) : Update σ α := reading fun s => pure (f s)

def modify (f : σ → σ) : Update σ Unit := fun s => ⟨pure (), f s⟩

end Update

end CpkProvenance
