import CallByValue.Command.Reduce
import CallByValue.Suite.Run

/-!
# Checking suites

Suites are run file by file.  Every failing case is reported, every passing one unless it is to be
quiet, and after each file the numbers of both.  The first file that cannot be loaded ends the command.
-/

namespace CallByValue

namespace Command

/-- How to check suites. -/
structure Check where
  /-- Whether to leave out the cases that pass. -/
  quiet : Bool := false
  /-- Whether to use colours. -/
  color : Bool := false
  /-- Whether to log the runs. -/
  verbose : Bool := false
  /-- Whether every run is cancelled before it starts. -/
  cancelled : Bool := false
  deriving DecidableEq, Repr

/-- The suite in a file, if documents are decoded so. -/
def loadSuite (decode : Text → Option Suite) (files : Files) (name : Text) : Except Error Suite :=
  match files name with
  | .error f => .error (.unreadableSuite name f)
  | .ok content => (Suite.loadWith decode content).mapError (.notSuite name)

namespace Check

/-- The line of a case. -/
def caseLine (c : Check) (r : CaseResult) : Text :=
  let p := paletteOf c.color
  match r.failure with
  | some f =>
    p.paint (some .fail) (utf8 "FAIL") ++ utf8 " " ++ r.name ++ utf8 ": " ++ f.message ++ utf8 "\n"
  | none =>
    if c.quiet then [] else p.paint (some .pass) (utf8 "PASS") ++ utf8 " " ++ r.name ++ utf8 "\n"

/-- The numbers of a file. -/
def summaryLine (file : Text) (rs : List CaseResult) : Text :=
  let (passed, failed) := summarize rs
  file ++ utf8 ": " ++ Text.ofNat passed ++ utf8 " passed, " ++ Text.ofNat failed ++ utf8 " failed\n"

/-- What is written about a file. -/
def fileOut (c : Check) (file : Text) (rs : List CaseResult) : Text :=
  rs.flatMap c.caseLine ++ summaryLine file rs

/-- What is logged about a file. -/
def fileLog (c : Check) (file : Text) (rs : List CaseResult) : Text :=
  let logger : Logger := { verbose := c.verbose, context := [(utf8 "suite", file)] }
  rs.flatMap fun r => logger.lines ((r.run.map Run.log).getD [])

/-- The results of a suite; a validated suite has no missing cases. -/
def results (c : Check) (s : Suite) : List CaseResult :=
  ((s.run { cancelAt := cancelAt c.cancelled }).2).getD []

/-- Checks files, after a report and numbers of failed and of all cases. -/
def runFrom (c : Check) (decode : Text → Option Suite) (files : Files) (rep : Report)
    (failed total : Nat) : List Text → Report
  | [] =>
    if 0 < failed then { rep with error := some (.casesFailed failed total) } else rep
  | file :: rest =>
    match loadSuite decode files file with
    | .error e => { rep with error := some e }
    | .ok s =>
      let rs := c.results s
      c.runFrom decode files
        { rep with out := rep.out ++ c.fileOut file rs, err := rep.err ++ c.fileLog file rs }
        (failed + (summarize rs).2) (total + rs.length) rest

/-- Checks files, if documents are decoded so. -/
def runWith (c : Check) (decode : Text → Option Suite) (files : Files) (names : List Text) : Report :=
  c.runFrom decode files {} 0 0 names

/-- Checks files. -/
def run (c : Check) : Files → List Text → Report := c.runWith Suite.read?

end Check

end Command

end CallByValue
