import CallByValue.Run.Basic
import CallByValue.Run.Ring

/-!
# Evaluators

An evaluator runs terms one after another under the same limit and budget.  It remembers the
statistics of its latest run and, while tracing is on, the last events of it.
-/

namespace CallByValue

/-- An evaluator. -/
structure Evaluator where
  /-- The greatest number of steps of a run; 0 is no limit. -/
  maxSteps : Nat := 0
  /-- The budget of every run. -/
  budget : Option Budget := none
  /-- The trace of the latest run, if tracing is on. -/
  trace : Option (Ring Event) := none
  /-- The statistics of the latest run. -/
  stats : Stats := {}

namespace Evaluator

/-- What may stop a run that is cancelled at the given number of steps. -/
def settings (ev : Evaluator) (cancelAt : Option Nat) : Settings where
  maxSteps := ev.maxSteps
  budget := ev.budget
  cancelAt := cancelAt

/-- Turns tracing on, with an empty trace of the given capacity. -/
def enableTrace (ev : Evaluator) (capacity : Int) : Evaluator :=
  { ev with trace := some (Ring.empty capacity) }

/-- Turns tracing off. -/
def disableTrace (ev : Evaluator) : Evaluator := { ev with trace := none }

/-- Runs a term. -/
def run (ev : Evaluator) (t : Term) (cancelAt : Option Nat) : Run × Evaluator :=
  let r := (ev.settings cancelAt).run t
  (r, { ev with
    trace := ev.trace.map fun ring => r.events.foldl Ring.record ring.reset
    stats := r.stats })

/-- The events that are still in the trace, the oldest first; nothing if tracing is off. -/
def snapshot (ev : Evaluator) : Option (List Event) := ev.trace.map Ring.toList

end Evaluator

end CallByValue
