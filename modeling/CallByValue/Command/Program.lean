import CallByValue.Command.Check
import CallByValue.Command.Option

/-!
# The program

The commands with their help texts, and what the program does with a command line.  A wrong use is
answered with the help text of the command concerned.
-/

namespace CallByValue

/-- The commands. -/
inductive Command where
  /-- Prints the normal form of a term. -/
  | eval
  /-- Prints every step of a term. -/
  | step
  /-- Runs suites. -/
  | check
  deriving DecidableEq, Repr

namespace Command

/-- All commands. -/
def all : List Command := [eval, step, check]

/-- The name of a command. -/
def name : Command → Text
  | eval => utf8 "eval"
  | step => utf8 "step"
  | check => utf8 "check"

/-- The words that select a command. -/
def words : Command → List Text
  | eval => [eval.name, utf8 "e"]
  | step => [step.name, utf8 "s"]
  | check => [check.name]

/-- The command that a word selects. -/
def find? (word : Text) : Option Command := all.find? (·.words.contains word)

/-- How a command is called. -/
def synopsis : Command → Text
  | eval => utf8 "eval [-max-steps n] [-budget expr] [-stats] [-gops] [file|-]"
  | step => utf8 "step [-max-steps n] [-diff] [file|-]"
  | check => utf8 "check [-q] suite.yaml..."

/-- What a command does. -/
def description : Command → Text
  | eval => utf8 "Reduce a term to its normal form and print it."
  | step => utf8 "Print every term in the reduction sequence."
  | check => utf8 "Run YAML suites of reduction cases."

/-- The options that every command has. -/
def commonFlags : List Flag := [.color, .verbose]

/-- The options of a command alone. -/
def ownFlags : Command → List Flag
  | eval => [.maxSteps, .budget, .stats, .agent]
  | step => [.maxSteps, .diff]
  | check => [.quiet]

/-! ### Help texts -/

/-- A text filled with spaces up to a width. -/
def pad (width : Nat) (t : Text) : Text := t ++ List.replicate (width - t.length) 0x20

/-- The length of the longest text. -/
def widest (ts : List Text) : Nat := (ts.map List.length).foldl max 0

/-- The names of an option as they are written. -/
def flagNames (f : Flag) : Text := Text.join (utf8 ", ") (f.names.map (utf8 "-" ++ ·))

/-- A table of options: names, description and kind in columns.  The last line ends with its kind. -/
def flagTable (flags : List Flag) : Text :=
  let names := widest (flags.map flagNames) + 2
  let descriptions := widest (flags.map Flag.description) + 1
  let kinds := widest (flags.dropLast.map (·.kind.toText)) + 1
  let start (f : Flag) := utf8 " " ++ pad names (flagNames f) ++ pad descriptions f.description
  (flags.dropLast.flatMap fun f => start f ++ pad kinds f.kind.toText ++ utf8 "\n") ++
    flags.getLast?.toList.flatMap fun f => start f ++ f.kind.toText ++ utf8 "\n"

/-- The help text of the program. -/
def programHelp : Text :=
  utf8 "synopsis: golam [opts] command [opts]\n\n" ++
  utf8 "golam evaluates untyped lambda calculus terms by call-by-value,\n" ++
  utf8 "left-to-right small-step reduction.\n\n" ++
  utf8 "Terms are written x: body, \\x. body or λx. body; application is\n" ++
  utf8 "juxtaposition; let x = M; in B binds x to M in B; # starts a comment.\n\n" ++
  utf8 "commands:\n" ++
  (all.flatMap fun c =>
    utf8 "    " ++ pad (widest (all.map name) + 2) c.name ++ c.synopsis ++ utf8 "\n") ++
  utf8 "\n options:\n\n" ++ flagTable commonFlags

/-- The help text of a command. -/
def help (c : Command) : Text :=
  utf8 "synopsis: " ++ c.synopsis ++ utf8 "\n\n" ++ c.description ++
    utf8 "\n\navailable golam options:\n\n" ++ flagTable commonFlags ++ utf8 "\n" ++
    c.name ++ utf8 " options:\n\n" ++ flagTable c.ownFlags

/-! ### The program -/

/-- What the program leaves behind. -/
structure Result where
  /-- The exit code. -/
  code : Nat := 0
  /-- The standard output. -/
  stdout : Text := []
  /-- The standard error. -/
  stderr : Text := []
  deriving DecidableEq, Repr

/-- Whether an error is a wrong use. -/
def Error.isUsage : Error → Bool
  | .usage _ => true
  | _ => false

/-- The end of the program after errors, with a help text if one of them is a wrong use. -/
def finish (help : Text) (out err : Text) : List Error → Result
  | [] => { stdout := out, stderr := err }
  | errors =>
    let shown := if errors.any Error.isUsage then help ++ utf8 "\n" else []
    { code := 1, stdout := out
      stderr := err ++ shown ++ Text.join (utf8 "\n") (errors.map Error.message) ++ utf8 "\n" }

/-- Runs a command with the given options and arguments. -/
def perform (c : Command) (files : Files) (stdin : Text) (o : Options) (args : List Text) : Report :=
  match c with
  | eval => withTerm fun t =>
    Eval.run { maxSteps := o.maxSteps, budget := o.budget, stats := o.stats,
               color := o.color, verbose := o.verbose } t
  | step => withTerm fun t =>
    Step.run { maxSteps := o.maxSteps, diff := o.diff, color := o.color, verbose := o.verbose } t
  | check =>
    if args = [] then { error := some (.usage .noSuite) }
    else Check.run { quiet := o.quiet, color := o.color, verbose := o.verbose } files args
where
  /-- Goes on with the term that the arguments name. -/
  withTerm (k : Term → Report) : Report :=
    if 1 < args.length then { error := some (.usage (.tooManyFiles c.name)) }
    else match readTerm files stdin args with
      | .error e => { error := some e }
      | .ok t => k t

/-- Runs a command on the words after its name. -/
def call (c : Command) (files : Files) (stdin : Text) (o : Options) (words : List Text) : Result :=
  let line := Line.read (commonFlags ++ c.ownFlags) false o words
  match line.errors with
  | [] =>
    let r := c.perform files stdin line.options line.args
    finish c.help r.out r.err r.error.toList
  | errors => finish c.help [] [] errors

/-- Runs the program on a command line. -/
def program (files : Files) (stdin : Text) (words : List Text) : Result :=
  let line := Line.read commonFlags true {} words
  match line.errors, line.args with
  | [], word :: words =>
    match find? word with
    | some c => c.call files stdin line.options words
    | none => finish programHelp [] [] [.usage (.noSuchCommand word)]
  | [], [] => finish programHelp [] [] [.usage .noCommand]
  | errors, _ => finish programHelp [] [] errors

/-- Whether a command line makes the program read its standard input. -/
def readsInput (words : List Text) : Bool :=
  let line := Line.read commonFlags true {} words
  match line.errors, line.args with
  | [], word :: words =>
    match find? word with
    | none | some check => false
    | some c =>
      let line := Line.read (commonFlags ++ c.ownFlags) false line.options words
      line.errors.isEmpty && line.args.head?.all (· == utf8 "-")
  | _, _ => false

end Command

end CallByValue
