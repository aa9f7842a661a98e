import CpkProvenance.Failure

/-!
# Traced computations

A computation that writes log lines, reads the entries of archives, and either
fails or gives a result. The lines written before a failure are kept, and the reads
before it are counted.
-/

namespace CpkProvenance

inductive LogLevel
  | debug
  | info
  | warn
  | error
  deriving DecidableEq, Repr

structure LogLine where
  level : LogLevel
  message : String
  deriving DecidableEq, Repr

structure Traced (α : Type) where
  log : List LogLine
  /-- How many entries were read to their end. -/
  reads : Nat
  result : Except Failure α

namespace Traced

variable {α β : Type}

protected def pure (a : α) : Traced α := ⟨[], 0, .ok a⟩

protected def bind (x : Traced α) (f : α → Traced β) : Traced β :=
  match x.result with
  | .error failure => ⟨x.log, x.reads, .error failure⟩
  | .ok a => ⟨x.log ++ (f a).log, x.reads + (f a).reads, (f a).result⟩

instance : Monad Traced where
  pure := Traced.pure
  bind := Traced.bind

def ofExcept (result : Except Failure α) : Traced α := ⟨[], 0, result⟩

def fail (failure : Failure) : Traced α := ⟨[], 0, .error failure⟩

def writeAll (lines : List LogLine) : Traced Unit := ⟨lines, 0, .ok ()⟩

def write (level : LogLevel) (message : String) : Traced Unit := writeAll [⟨level, message⟩]

/-- Reads an entry, which counts unless it fails. -/
def read : Except Failure α → Traced α
  | .error failure => fail failure
  | .ok entry => ⟨[], 1, .ok entry⟩

end Traced

end CpkProvenance
