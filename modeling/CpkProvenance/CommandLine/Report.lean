import CpkProvenance.Failure
import CpkProvenance.Text.Cut

/-!
# Error reports

What is printed when a command fails: what it was about to do, and the chain of
causes. A single cause is indented; several are numbered, and their further lines
stand under the first.
-/

namespace CpkProvenance.CommandLine

structure Report where
  context : String
  causes : List String
  deriving DecidableEq, Repr

def Report.ofFailure (context : String) (failure : Failure) : Report :=
  ⟨context, failure.message :: failure.reasons⟩

/-- A text with something before its first line and something before the
others. -/
def indented (first others text : String) : String :=
  first ++ ("\n" ++ others).intercalate
    ((Text.splitAll '\n' text.toList).map String.ofList)

def numberedCause (cause : String) (number : Nat) : String :=
  indented ("    " ++ toString number ++ ": ") "       " cause

def Report.causeLines (r : Report) : List String :=
  match r.causes with
  | [cause] => [indented "    " "    " cause]
  | causes => causes.zipIdx.map fun (cause, number) => numberedCause cause number

def Report.text (r : Report) : String :=
  "Error: " ++ r.context ++ "\n\nCaused by:\n" ++ "\n".intercalate r.causeLines ++ "\n"

end CpkProvenance.CommandLine
