import CallByValue.Source.Parser
import CallByValue.Text.Quoted

/-!
# Suites

A suite is a list of cases, each a term together with what is expected of its run.  The terms of a
case are parsed when the suite is validated, or else when it is run, and kept with the case; they are
not parsed again until the suite is validated the next time.
-/

namespace CallByValue

/-- A case. -/
structure Case where
  /-- The name. -/
  name : Text
  /-- The source of the term to run. -/
  input : Text
  /-- The source of the expected term; nothing is expected if it is empty. -/
  output : Text := []
  /-- The word for the expected outcome; any normal form will do if it is empty. -/
  outcome : Text := []
  /-- The expected number of steps. -/
  steps : Option Nat := none
  /-- The step limit; 0 leaves it to the suite. -/
  maxSteps : Nat := 0
  /-- The term of the input, once it has been parsed. -/
  inputTerm : Option Term := none
  /-- The term of the output, once it has been parsed. -/
  outputTerm : Option Term := none
  deriving DecidableEq, Repr

/-- A suite.  A case may be missing where the list has an empty item. -/
structure Suite where
  /-- The step limit of cases without their own; 0 is the default. -/
  maxSteps : Nat := 0
  /-- The cases. -/
  cases : List (Option Case) := []
  deriving DecidableEq, Repr

/-- The outcomes that a case can expect. -/
inductive Expectation where
  /-- Any normal form. -/
  | any
  /-- An abstraction. -/
  | value
  /-- Another normal form. -/
  | stuck
  /-- No normal form within the step limit. -/
  | diverges
  deriving DecidableEq, Repr

namespace Expectation

/-- The word for an expectation. -/
def toText : Expectation → Text
  | any => []
  | value => utf8 "value"
  | stuck => utf8 "stuck"
  | diverges => utf8 "diverges"

/-- The expectation with the given word. -/
def ofText? (t : Text) : Option Expectation := [any, value, stuck, diverges].find? (·.toText = t)

end Expectation

/-- What is wrong with a suite. -/
inductive Fault where
  /-- The case with this number is missing. -/
  | missing (i : Nat)
  /-- The case with this number has no name. -/
  | unnamed (i : Nat)
  /-- An earlier case has the same name. -/
  | duplicate (name : Text)
  /-- The input is no term. -/
  | input (name : Text) (e : SyntaxError)
  /-- The output is no term. -/
  | output (name : Text) (e : SyntaxError)
  /-- There is no such outcome. -/
  | unknownOutcome (name outcome : Text)
  /-- The case expects both divergence and something about the last term. -/
  | contradiction (name : Text)
  deriving DecidableEq, Repr

/-- The message of a fault. -/
def Fault.message (f : Fault) : Text :=
  utf8 "invalid suite: " ++ match f with
    | missing i => utf8 "case " ++ Text.ofNat i ++ utf8 " is empty"
    | unnamed i => utf8 "case " ++ Text.ofNat i ++ utf8 " has no name"
    | duplicate name => utf8 "duplicate case " ++ name.quoted
    | input name e => utf8 "case " ++ name.quoted ++ utf8 " input: " ++ e.message
    | output name e => utf8 "case " ++ name.quoted ++ utf8 " output: " ++ e.message
    | unknownOutcome name outcome =>
      utf8 "case " ++ name.quoted ++ utf8 " has unknown outcome " ++ outcome.quoted
    | contradiction name => utf8 "case " ++ name.quoted ++ utf8 " diverges but sets output or steps"

/-- The case with its terms forgotten. -/
def Case.unparsed (c : Case) : Case := { c with inputTerm := none, outputTerm := none }

/-- Parses the terms of a case and gives the input.  The input is kept even if the output is no
term. -/
def Case.parse (c : Case) : Case × Except Fault Term :=
  match Term.parse c.input with
  | .error e => (c, .error (.input c.name e))
  | .ok t =>
    let c := { c with inputTerm := some t, outputTerm := none }
    if c.output = [] then (c, .ok t)
    else match Term.parse c.output with
      | .error e => (c, .error (.output c.name e))
      | .ok u => ({ c with outputTerm := some u }, .ok t)

/-- What is wrong with the outcome of a case. -/
def Case.outcomeFault? (c : Case) : Option Fault :=
  match Expectation.ofText? c.outcome with
  | none => some (.unknownOutcome c.name c.outcome)
  | some .diverges =>
    if c.output ≠ [] ∨ c.steps.isSome then some (.contradiction c.name) else none
  | some _ => none

/-- Validates the case with number `i` after cases with the names `seen`. -/
def Case.validate (i : Nat) (seen : List Text) (c : Case) : Case × Option Fault :=
  if c.name = [] then (c, some (.unnamed i))
  else if seen.contains c.name then (c, some (.duplicate c.name))
  else
    match c.parse with
    | (c, .error fault) => (c, some fault)
    | (c, .ok _) => (c, c.outcomeFault?)

/-- Validates cases up to the first that is wrong; the first of them has the number `i` and comes
after cases with the names `seen`. -/
def Suite.validateFrom (i : Nat) (seen : List Text) :
    List (Option Case) → List (Option Case) × Option Fault
  | [] => ([], none)
  | none :: cs => (none :: cs, some (.missing i))
  | some c :: cs =>
    match c.validate i seen with
    | (c, some fault) => (some c :: cs, some fault)
    | (c, none) =>
      let (cs, fault) := validateFrom (i + 1) (c.name :: seen) cs
      (some c :: cs, fault)

/-- Parses the terms of all cases and looks for something wrong.  Cases after a wrong one stay as they
are. -/
def Suite.validate (s : Suite) : Suite × Option Fault :=
  let (cases, fault) := validateFrom 0 [] s.cases
  ({ s with cases := cases }, fault)

end CallByValue
