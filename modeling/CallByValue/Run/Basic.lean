import CallByValue.Run.Budget
import CallByValue.Term.Reduce

/-!
# Runs

A run reduces a term step by step and observes every term on the way.  It ends at the first term
where one of these holds, tested in this order: the budget does not hold, the run is cancelled, the
term has no step, the step limit is reached.  So the limit is reported only where a further step
would have been possible.

The number of steps is counted in 64 bits; a run that gets further than that is `unfinished`.
-/

namespace CallByValue

/-- How a run ended. -/
inductive Outcome where
  /-- At an abstraction. -/
  | value
  /-- At another term without a step. -/
  | stuck
  /-- Before a term without a step. -/
  | halted
  deriving DecidableEq, Repr

namespace Outcome

/-- The word for an outcome. -/
def toText : Outcome → Text
  | value => utf8 "value"
  | stuck => utf8 "stuck"
  | halted => utf8 "halted"

/-- The word for the outcome with a given number, also where no outcome has it. -/
def describeNumber (n : Int) : Text :=
  match n with
  | 0 => value.toText
  | 1 => stuck.toText
  | 2 => halted.toText
  | n => utf8 "Outcome(" ++ Text.ofInt n ++ utf8 ")"

end Outcome

/-- A term that a run comes to, after the given number of steps. -/
structure Event where
  /-- The number of steps taken. -/
  step : Nat
  /-- The term. -/
  term : Term
  /-- The size of the term. -/
  size : Nat
  /-- The depth of the term. -/
  depth : Nat
  deriving DecidableEq, Repr

namespace Event

/-- The event of a term. -/
def of (n : Nat) (t : Term) : Event := ⟨n, t, t.size, t.depth⟩

/-- What a budget sees of an event. -/
def reading (e : Event) : Reading := ⟨e.step, e.size, e.depth⟩

end Event

/-- Why a run was stopped before a normal form. -/
inductive Halt where
  /-- The budget with the given source does not hold. -/
  | budgetSpent (source : Text) (r : Reading)
  /-- The budget with the given source could not be evaluated. -/
  | budgetFailed (source : Text)
  /-- The run was cancelled. -/
  | cancelled (steps : Nat)
  /-- The step limit was reached. -/
  | stepLimit (limit : Nat)
  deriving DecidableEq, Repr

/-- How a run ended. -/
inductive Ending where
  /-- No step was possible. -/
  | normal
  /-- The run was stopped. -/
  | halted (h : Halt)
  /-- The step counter is exhausted. -/
  | unfinished
  deriving DecidableEq, Repr

/-- What may stop a run. -/
structure Settings where
  /-- The greatest number of steps; 0 is no limit. -/
  maxSteps : Nat := 0
  /-- The budget, if there is one. -/
  budget : Option Budget := none
  /-- The number of steps after which the run is cancelled, if it is. -/
  cancelAt : Option Nat := none

/-- The numbers that are reported of a run. -/
structure Stats where
  /-- The number of steps. -/
  steps : Nat := 0
  /-- The greatest size of a term. -/
  peakSize : Nat := 0
  /-- The greatest depth of a term. -/
  peakDepth : Nat := 0
  deriving DecidableEq, Repr

/-- The statistics after one more event. -/
def Stats.observe (s : Stats) (e : Event) : Stats :=
  ⟨e.step, max s.peakSize e.size, max s.peakDepth e.depth⟩

/-- A run: its events in order, the last one apart, and how it ended. -/
structure Run where
  /-- The events before the last. -/
  earlier : List Event
  /-- The last event. -/
  last : Event
  /-- How the run ended. -/
  ending : Ending
  deriving DecidableEq, Repr

namespace Run

/-- All events in order. -/
def events (r : Run) : List Event := r.earlier ++ [r.last]

/-- The last term. -/
def term (r : Run) : Term := r.last.term

/-- The statistics. -/
def stats (r : Run) : Stats := r.events.foldl Stats.observe {}

/-- The outcome. -/
def outcome (r : Run) : Outcome :=
  match r.ending with
  | .normal => if r.term.isValue then .value else .stuck
  | _ => .halted

/-- Why the run was stopped, if it was. -/
def halt? (r : Run) : Option Halt :=
  match r.ending with
  | .halted h => some h
  | _ => none

end Run

/-- What a run does at an event. -/
inductive Decision where
  /-- It ends. -/
  | stop (e : Ending)
  /-- It goes on with the next term. -/
  | go (t : Term)
  deriving DecidableEq, Repr

namespace Settings

/-- The objection of the budget to an event. -/
def objection? (s : Settings) (e : Event) : Option Halt :=
  s.budget.bind fun b =>
    match b.judge e.reading with
    | .holds => none
    | .spent => some (.budgetSpent b.source e.reading)
    | .failed => some (.budgetFailed b.source)

/-- Whether the run is cancelled once the term after `n` steps has been observed. -/
def cancelledAt (s : Settings) (n : Nat) : Bool := s.cancelAt.any (· ≤ n)

/-- Whether no step may follow the first `n`. -/
def limitReached (s : Settings) (n : Nat) : Bool := 0 < s.maxSteps && s.maxSteps ≤ n

/-- What a run does at an event. -/
def decision (s : Settings) (e : Event) : Decision :=
  match s.objection? e with
  | some h => .stop (.halted h)
  | none =>
    if s.cancelledAt e.step then .stop (.halted (.cancelled e.step))
    else match e.term.reduce with
      | none => .stop .normal
      | some t => if s.limitReached e.step then .stop (.halted (.stepLimit s.maxSteps)) else .go t

/-- Continues a run with the term after `n` steps for at most `fuel` further steps; `seen` are the
events so far, the latest first. -/
def runFrom (s : Settings) : (fuel : Nat) → (seen : List Event) → (n : Nat) → Term → Run
  | fuel, seen, n, t =>
    match s.decision (Event.of n t) with
    | .stop ending => ⟨seen.reverse, Event.of n t, ending⟩
    | .go u =>
      match fuel with
      | 0 => ⟨seen.reverse, Event.of n t, .unfinished⟩
      | fuel + 1 => runFrom s fuel (Event.of n t :: seen) (n + 1) u

/-- The greatest number of steps that are counted. -/
def horizon : Nat := 0xffffffffffffffff

/-- The run of a term. -/
def run (s : Settings) (t : Term) : Run := s.runFrom horizon [] 0 t

end Settings

namespace Halt

/-- The message of a stop. -/
def message : Halt → Text
  | budgetSpent source r =>
    utf8 "budget exceeded: " ++ source ++ utf8 " (steps=" ++ Text.ofNat r.steps ++ utf8 " size=" ++
      Text.ofNat r.size ++ utf8 " depth=" ++ Text.ofNat r.depth ++ utf8 ")"
  | budgetFailed source => utf8 "evaluating budget " ++ source ++ utf8 " failed"
  | cancelled n =>
    utf8 "evaluation cancelled after " ++ Text.ofNat n ++ utf8 " steps: context canceled"
  | stepLimit n => utf8 "step limit reached: " ++ Text.ofNat n ++ utf8 " steps"

end Halt

end CallByValue
