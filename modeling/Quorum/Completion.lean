import Quorum.Failure
import Quorum.Text.Quoted

/-! # Completions

A completion travels with a command until its outcome is known. It takes the first
outcome only, and giving it up without one is an outcome too, so the submitter learns of
exactly one.
-/

namespace Quorum

/-- How an outcome reaches the submitter. -/
inductive Sink where
  | channel
  | callback
  deriving DecidableEq, Repr

def Sink.name : Sink → String
  | .channel => "channel"
  | .callback => "callback"

/-- The handle by which the outcome of a command is reported. -/
structure Completion where
  sink : Sink
  outcome : Option Outcome := none

namespace Completion

/-- Reports an outcome, unless one was reported before. -/
def resolve (completion : Completion) (outcome : Outcome) : Completion :=
  match completion.outcome with
  | some _ => completion
  | none => { completion with outcome := some outcome }

def complete (completion : Completion) (data : Bytes) : Completion :=
  completion.resolve (.ok data)

def fail (completion : Completion) (failure : Failure) : Completion :=
  completion.resolve (.error failure)

/-- The outcome of a command whose completion was given up. -/
def abandoned : Failure :=
  .internal "command closure dropped without completion"

def giveUp (completion : Completion) : Completion :=
  completion.fail abandoned

/-- What a submitter learns who waits so many milliseconds. -/
def wait (completion : Completion) (timeout : Nat) : Outcome :=
  completion.outcome.getD <| .error <| .internal
    ("timed out after " ++ toString timeout ++ "ms waiting for command completion")

/-- A completion as diagnostics show it. -/
def debug (completion : Completion) : String :=
  let sink := if completion.outcome.isSome then "resolved" else completion.sink.name
  "StoreClosure \x7b sink: " ++ Text.Quoting.text.quote sink ++ " \x7d"

/-- A reported outcome stays. -/
theorem resolve_resolve (completion : Completion) (first second : Outcome) :
    (completion.resolve first).resolve second = completion.resolve first := by
  obtain ⟨sink, outcome⟩ := completion
  cases outcome <;> rfl

end Completion
end Quorum
