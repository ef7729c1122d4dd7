import CallByValue.Display.Printer
import CallByValue.Run.Basic
import CallByValue.Suite.Basic
import CallByValue.Term.Alpha

/-!
# Running suites

Every case is run on its own, under its step limit, and judged by the way the run ends.  Terms are
compared up to the names of bound variables.
-/

namespace CallByValue

/-- Why a case failed. -/
inductive Failure where
  /-- It could not be run. -/
  | faulty (f : Fault)
  /-- No normal form was reached. -/
  | noNormalForm (steps : Nat)
  /-- The run was stopped. -/
  | halted (h : Halt)
  /-- A normal form was reached where none was expected. -/
  | normalForm (o : Outcome) (t : Term) (steps : Nat)
  /-- The outcome is not the expected one. -/
  | outcome (expected : Text) (o : Outcome) (t : Term)
  /-- The last term is not the expected one. -/
  | output (expected t : Term)
  /-- The number of steps is not the expected one. -/
  | steps (expected n : Nat)
  deriving DecidableEq, Repr

/-- The message of a failure. -/
def Failure.message : Failure → Text
  | faulty f => f.message
  | noNormalForm n => utf8 "no normal form within " ++ Text.ofNat n ++ utf8 " steps"
  | halted h => h.message
  | normalForm o t n =>
    utf8 "reached " ++ o.toText ++ utf8 " " ++ t.plain ++ utf8 " after " ++ Text.ofNat n ++ utf8 " steps"
  | outcome expected o t =>
    utf8 "expected " ++ expected ++ utf8 ", got " ++ o.toText ++ utf8 " " ++ t.plain
  | output expected t => utf8 "expected " ++ expected.plain ++ utf8 ", got " ++ t.plain
  | steps expected n =>
    utf8 "expected " ++ Text.ofNat expected ++ utf8 " steps, took " ++ Text.ofNat n

/-- The term of a case, which is parsed unless its input has been parsed before. -/
def Case.term (c : Case) : Case × Except Fault Term :=
  match c.inputTerm with
  | some t => (c, .ok t)
  | none => c.parse

/-- What a run that reached a normal form shows of a case. -/
def Case.normalFailure? (c : Case) (r : Run) : Option Failure :=
  if c.outcome = Expectation.diverges.toText then
    some (.normalForm r.outcome r.term r.stats.steps)
  else if c.outcome ≠ Expectation.any.toText ∧ c.outcome ≠ r.outcome.toText then
    some (.outcome c.outcome r.outcome r.term)
  else
    match c.outputTerm.filter fun t => !t.alphaEq r.term with
    | some t => some (.output t r.term)
    | none =>
      match c.steps.filter (· ≠ r.stats.steps) with
      | some n => some (.steps n r.stats.steps)
      | none => none

/-- Why a case failed by its run; nothing if it passed. -/
def Case.failure? (c : Case) (r : Run) : Option Failure :=
  match r.ending with
  | .normal => c.normalFailure? r
  | .halted (.stepLimit _) | .unfinished =>
    if c.outcome = Expectation.diverges.toText then none
    else some (.noNormalForm r.stats.steps)
  | .halted h => some (.halted h)

/-- What came of a case. -/
structure CaseResult where
  /-- The name of the case. -/
  name : Text
  /-- Its run, unless it could not be run. -/
  run : Option Run
  /-- Why it failed, if it did. -/
  failure : Option Failure
  deriving DecidableEq, Repr

/-- Whether the case passed. -/
def CaseResult.pass (r : CaseResult) : Bool := r.failure.isNone

namespace Suite

/-- The step limit where neither the suite nor the case has one. -/
def defaultMaxSteps : Nat := 10000

/-- The step limit of a case. -/
def limit (s : Suite) (c : Case) : Nat :=
  if 0 < c.maxSteps then c.maxSteps
  else if 0 < s.maxSteps then s.maxSteps
  else defaultMaxSteps

/-- Runs a case, parsing it first unless its input has been parsed. -/
def runCase (s : Suite) (settings : Settings) (c : Case) : Case × CaseResult :=
  match c.term with
  | (c, .error fault) => (c, { name := c.name, run := none, failure := some (.faulty fault) })
  | (c, .ok t) =>
    let r := { settings with maxSteps := s.limit c }.run t
    (c, { name := c.name, run := some r, failure := c.failure? r })

/-- Runs cases up to the first that is missing; there are no results if one is. -/
def runFrom (s : Suite) (settings : Settings) :
    List (Option Case) → List (Option Case) × Option (List CaseResult)
  | [] => ([], some [])
  | none :: cs => (none :: cs, none)
  | some c :: cs =>
    let (c, r) := s.runCase settings c
    let (cs, rs) := runFrom s settings cs
    (some c :: cs, rs.map (r :: ·))

/-- Runs all cases, where the settings say what else than the step limit may stop a run.  There are no
results if a case is missing. -/
def run (s : Suite) (settings : Settings) : Suite × Option (List CaseResult) :=
  let (cases, results) := s.runFrom settings s.cases
  ({ s with cases := cases }, results)

end Suite

/-- The numbers of cases that passed and that failed. -/
def summarize (rs : List CaseResult) : Nat × Nat :=
  (rs.countP CaseResult.pass, rs.countP fun r => !r.pass)

end CallByValue
