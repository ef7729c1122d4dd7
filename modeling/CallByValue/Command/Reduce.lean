import CallByValue.Command.Report
import CallByValue.Condition.Budget
import CallByValue.Display.Printer
import CallByValue.Edit.Diff
import CallByValue.Run.Log

/-!
# Reducing a term

Two commands reduce a term: one prints the last term of the run, the other every term, each either as
it is or as the difference from the one before.
-/

namespace CallByValue

namespace Command

/-- The term in the file that is named, or in the standard input where no file or `-` is. -/
def readTerm (files : Files) (stdin : Text) (args : List Text) : Except Error Term :=
  match args.head?.filter (· ≠ utf8 "-") with
  | none => parse (utf8 "<stdin>") stdin
  | some name =>
    match files name with
    | .ok content => parse name content
    | .error f => .error (.unreadable name f)
where
  /-- The term that a text spells. -/
  parse (name content : Text) : Except Error Term :=
    (Term.parse content).mapError (.notTerm name)

/-- Colours if they are asked for. -/
def palette? (color : Bool) : Option Palette := if color then some .colours else none

/-- The palette to print with. -/
def paletteOf (color : Bool) : Palette := (palette? color).getD .plain

/-- The settings of a run that may be cancelled before it starts. -/
def cancelAt (cancelled : Bool) : Option Nat := if cancelled then some 0 else none

/-- The error that a run ends with. -/
def runError? (r : Run) : Option Error := r.halt?.map .halted

/-! ### Evaluation -/

/-- How to evaluate a term. -/
structure Eval where
  /-- The step limit. -/
  maxSteps : Int := 0
  /-- The budget; none if it is empty. -/
  budget : Text := []
  /-- Whether to write statistics. -/
  stats : Bool := false
  /-- Whether to use colours. -/
  color : Bool := false
  /-- Whether to log the run. -/
  verbose : Bool := false
  /-- Whether the run is cancelled before it starts. -/
  cancelled : Bool := false
  deriving DecidableEq, Repr

/-- The statistics of a run.  The time that it took is not part of them and is written as `T`. -/
def statsText (r : Run) : Text :=
  utf8 "\nStats:\nOutcome: " ++ r.outcome.toText ++ utf8 "\nTime: T\nTotal Reductions: " ++
    Text.ofNat r.stats.steps ++ utf8 "\nPeak Size:  " ++ Text.ofNatPadded 6 r.stats.peakSize ++
    utf8 "\nPeak Depth: " ++ Text.ofNatPadded 6 r.stats.peakDepth ++ utf8 "\n"

namespace Eval

/-- What may stop the run. -/
def settings (c : Eval) : Except UsageError Settings := do
  if c.maxSteps < 0 then throw .negativeLimit
  let budget ←
    if c.budget = [] then pure none
    else match Budget.compile? c.budget with
      | some b => pure (some b)
      | none => throw (.invalidBudget c.budget)
  return { maxSteps := c.maxSteps.toNat, budget := budget, cancelAt := cancelAt c.cancelled }

/-- Runs a term and prints the last term reached, also where the run was stopped. -/
def run (c : Eval) (t : Term) : Report :=
  match c.settings with
  | .error e => { error := some (.usage e) }
  | .ok s =>
    let r := s.run t
    { out := Printer.unicode.print (paletteOf c.color) r.term ++ utf8 "\n"
      err := Logger.lines { verbose := c.verbose } r.log ++ if c.stats then statsText r else []
      error := runError? r }

end Eval

/-! ### Steps -/

/-- How to show the steps of a term. -/
structure Step where
  /-- The step limit. -/
  maxSteps : Int := 0
  /-- Whether to show differences. -/
  diff : Bool := false
  /-- Whether to use colours. -/
  color : Bool := false
  /-- Whether to log the run. -/
  verbose : Bool := false
  /-- Whether the run is cancelled before it starts. -/
  cancelled : Bool := false
  deriving DecidableEq, Repr

namespace Step

/-- A line with the number of an event. -/
def entry (e : Event) (line : Text) : Text :=
  Text.ofNatPadded 4 e.step ++ utf8 "  " ++ line ++ utf8 "\n"

/-- The text of a term as it is. -/
def shown (c : Step) (t : Term) : Text := Printer.unicode.print (paletteOf c.color) t

/-- The text of a term after another one. -/
def shownAfter (c : Step) (before t : Term) : Text :=
  if c.diff then
    (Printer.unicode.print .plain before).diff (Printer.unicode.print .plain t) (palette? c.color)
  else c.shown t

/-- The entries of events that follow a term. -/
def entriesAfter (c : Step) (before : Term) : List Event → Text
  | [] => []
  | e :: es => entry e (c.shownAfter before e.term) ++ c.entriesAfter e.term es

/-- The entries of the events of a run. -/
def entries (c : Step) : List Event → Text
  | [] => []
  | e :: es => entry e (c.shown e.term) ++ c.entriesAfter e.term es

/-- Runs a term and prints every term on the way and how the run ended. -/
def run (c : Step) (t : Term) : Report :=
  if c.maxSteps < 0 then { error := some (.usage .negativeLimit) }
  else
    let s : Settings := { maxSteps := c.maxSteps.toNat, cancelAt := cancelAt c.cancelled }
    let r := s.run t
    { out := c.entries r.events ++ utf8 "-- " ++ r.outcome.toText ++ utf8 " after " ++
        Text.ofNat r.stats.steps ++ utf8 " steps\n"
      err := Logger.lines { verbose := c.verbose } r.log
      error := runError? r }

end Step

/-! ### Diagnostics -/

/-- What is logged when the diagnostics agent is started: a warning if that failed. -/
def agentLog (failure : Option Text) : List Log.Record :=
  match failure with
  | none => []
  | some e =>
    [{ level := .warn, message := utf8 "gops agent failed", pairs := [(utf8 "err", e)] }]

end Command

end CallByValue
