import CallByValue.Command.Directory
import CallByValue.Run.Basic
import CallByValue.Suite.Reader

/-!
# Reports

What a command writes, and the errors that it can end with.
-/

namespace CallByValue

namespace Command

/-- A wrong use of a command. -/
inductive UsageError where
  /-- The step limit is negative. -/
  | negativeLimit
  /-- The budget is no condition. -/
  | invalidBudget (source : Text)
  /-- More files are given than the command takes. -/
  | tooManyFiles (command : Text)
  /-- No suite is given. -/
  | noSuite
  /-- No command is given. -/
  | noCommand
  /-- There is no such command. -/
  | noSuchCommand (name : Text)
  /-- There is no such option. -/
  | unknownOption (name : Text)
  /-- An option comes without its value. -/
  | noValue (name : Text)
  deriving DecidableEq, Repr

/-- The message of a wrong use. -/
def UsageError.message (e : UsageError) : Text :=
  utf8 "usage error: " ++ match e with
    | negativeLimit => utf8 "-max-steps must not be negative"
    | invalidBudget source => utf8 "invalid budget " ++ source.quoted
    | tooManyFiles command => command ++ utf8 " takes at most one file"
    | noSuite => utf8 "check needs at least one suite file"
    | noCommand => utf8 "no command provided"
    | noSuchCommand name => utf8 "no such command: " ++ name.quoted ++ utf8 " not found"
    | unknownOption name => utf8 "unknown option: " ++ name.quoted
    | noValue name => utf8 "option requires a value: " ++ name

/-- A value that an option cannot take. -/
inductive ValueError where
  /-- It is no integer. -/
  | notInt (value : Text)
  /-- It is an integer beyond 64 bits. -/
  | intRange (value : Text)
  /-- It is no truth value. -/
  | notBool (value : Text)
  deriving DecidableEq, Repr

/-- The message of a wrong value. -/
def ValueError.message : ValueError → Text
  | notInt v => utf8 "strconv.ParseInt: parsing " ++ v.quoted ++ utf8 ": invalid syntax"
  | intRange v => utf8 "strconv.ParseInt: parsing " ++ v.quoted ++ utf8 ": value out of range"
  | notBool v => utf8 "strconv.ParseBool: parsing " ++ v.quoted ++ utf8 ": invalid syntax"

/-- What a command can end with. -/
inductive Error where
  /-- It was used in a wrong way. -/
  | usage (e : UsageError)
  /-- An option was given a wrong value. -/
  | value (e : ValueError)
  /-- A term could not be read. -/
  | unreadable (name : Text) (f : FileFault)
  /-- What was read is no term. -/
  | notTerm (name : Text) (e : SyntaxError)
  /-- A suite could not be read. -/
  | unreadableSuite (name : Text) (f : FileFault)
  /-- What was read is no suite. -/
  | notSuite (name : Text) (e : Suite.LoadError)
  /-- Cases failed. -/
  | casesFailed (failed total : Nat)
  /-- A run was stopped. -/
  | halted (h : Halt)
  deriving DecidableEq, Repr

/-- The message of an error. -/
def Error.message : Error → Text
  | usage e => e.message
  | value e => e.message
  | unreadable name f => utf8 "could not read " ++ name ++ utf8 ": " ++ f.reading name
  | notTerm name e => name ++ utf8 ": " ++ e.message
  | unreadableSuite name .isDirectory =>
    name ++ utf8 ": reading suite: " ++ FileFault.isDirectory.reading name
  | unreadableSuite name f => utf8 "could not open " ++ name.quoted ++ utf8 ": " ++ f.reading name
  | notSuite name e => name ++ utf8 ": " ++ e.message
  | casesFailed failed total =>
    Text.ofNat failed ++ utf8 " of " ++ Text.ofNat total ++ utf8 " cases failed"
  | halted h => h.message

/-- What a command wrote, and the error that it ended with. -/
structure Report where
  /-- What it wrote to its output. -/
  out : Text := []
  /-- What it wrote to its log. -/
  err : Text := []
  /-- The error that it ended with, if any. -/
  error : Option Error := none
  deriving DecidableEq, Repr

end Command

end CallByValue
