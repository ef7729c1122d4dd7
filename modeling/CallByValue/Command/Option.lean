import CallByValue.Command.Report

/-!
# Options

The options of the commands, and how the words of a command line set them.  An option starts with one
or two dashes.  A switch is set by its name and unset by its name after `no-`; any other option takes
the next word as its value.  Everything after `--` is an argument, `--` included.  All errors in a
command line are reported.

A value may also be tried after an equals sign.  It is checked, but the word is then taken as the name
of an option, which no option has.
-/

namespace CallByValue

namespace Command

/-- What an option is set to. -/
inductive Kind where
  /-- A truth value. -/
  | bool
  /-- An integer. -/
  | int
  /-- A text. -/
  | string
  deriving DecidableEq, Repr

/-- The word for a kind. -/
def Kind.toText : Kind → Text
  | bool => utf8 "bool"
  | int => utf8 "int"
  | string => utf8 "string"

/-- The options. -/
inductive Flag where
  | color
  | verbose
  | maxSteps
  | budget
  | stats
  | agent
  | diff
  | quiet
  deriving DecidableEq, Repr

namespace Flag

/-- The name of an option and its other names. -/
def names : Flag → List Text
  | color => [utf8 "color"]
  | verbose => [utf8 "v", utf8 "verbose"]
  | maxSteps => [utf8 "max-steps"]
  | budget => [utf8 "budget"]
  | stats => [utf8 "stats"]
  | agent => [utf8 "gops"]
  | diff => [utf8 "diff"]
  | quiet => [utf8 "q", utf8 "quiet"]

/-- What an option is for. -/
def description : Flag → Text
  | color => utf8 "colour output (default: when stdout is a terminal)"
  | verbose => utf8 "log every step to stderr"
  | maxSteps => utf8 "stop after this many steps (0: no limit)"
  | budget => utf8 "keep going while this expression over steps, size and depth holds"
  | stats => utf8 "print statistics to stderr"
  | agent => utf8 "start a gops diagnostics agent"
  | diff => utf8 "show each step as a diff against the previous term"
  | quiet => utf8 "only report failures"

/-- What an option is set to. -/
def kind : Flag → Kind
  | maxSteps => .int
  | budget => .string
  | _ => .bool

/-- The option with a name among those given. -/
def find? (flags : List Flag) (name : Text) : Option Flag := flags.find? (·.names.contains name)

end Flag

/-- The values of all options. -/
structure Options where
  color : Bool := false
  verbose : Bool := false
  maxSteps : Int := 0
  budget : Text := []
  stats : Bool := false
  agent : Bool := false
  diff : Bool := false
  quiet : Bool := false
  deriving DecidableEq, Repr

namespace Options

/-- Sets or unsets a switch; other options stay. -/
def switch (o : Options) (b : Bool) : Flag → Options
  | .color => { o with color := b }
  | .verbose => { o with verbose := b }
  | .stats => { o with stats := b }
  | .agent => { o with agent := b }
  | .diff => { o with diff := b }
  | .quiet => { o with quiet := b }
  | .maxSteps | .budget => o

end Options

/-! ### Values -/

/-- The truth value that a text spells. -/
def bool? (t : Text) : Option Bool :=
  if (["1", "t", "T", "TRUE", "true", "True"].map utf8).contains t then some true
  else if (["0", "f", "F", "FALSE", "false", "False"].map utf8).contains t then some false
  else none

/-- The signed 64-bit integer that a text spells. -/
def readInt (t : Text) : Except ValueError Int :=
  let (negative, digits) := match t with
    | 0x2d :: ds => (true, ds)
    | 0x2b :: ds => (false, ds)
    | ds => (false, ds)
  match Text.toNat? digits with
  | none => .error (.notInt t)
  | some n =>
    if negative then if n ≤ 1 <<< 63 then .ok (-n) else .error (.intRange t)
    else if n < 1 <<< 63 then .ok n else .error (.intRange t)

/-- Sets an option to the value that a text spells. -/
def Options.set (o : Options) (f : Flag) (v : Text) : Except ValueError Options :=
  match f.kind with
  | .bool =>
    match bool? v with
    | some b => .ok (o.switch b f)
    | none => .error (.notBool v)
  | .int => (readInt v).map fun n => { o with maxSteps := n }
  | .string => .ok { o with budget := v }

/-! ### Command lines -/

/-- A command line: the values of its options, its arguments and what is wrong with it. -/
structure Line where
  /-- The values of the options. -/
  options : Options
  /-- The arguments. -/
  args : List Text := []
  /-- The errors. -/
  errors : List Error := []
  deriving DecidableEq, Repr

/-- A command line with one more error before the others. -/
def Line.fail (e : Error) (l : Line) : Line := { l with errors := e :: l.errors }

/-- The name of an option, without its dashes; none for an argument. -/
def optionName? (w : Text) : Option Text :=
  match w with
  | [0x2d] => none
  | 0x2d :: 0x2d :: name => some name
  | 0x2d :: name => some name
  | _ => none

/-- The option that a word names, and whether it stands after `no-`. -/
def findFlag? (flags : List Flag) (name : Text) : Option (Flag × Bool) :=
  match Flag.find? flags name with
  | some f => some (f, false)
  | none =>
    if (utf8 "no-").isPrefixOf name then (Flag.find? flags (name.drop 3)).map (·, true) else none

/-- Tries the value that follows an equals sign in a word; the error if there is one. -/
def tryValue (flags : List Flag) (o : Options) (name : Text) : Except Error Options :=
  if name.contains 0x3d then
    match Flag.find? flags (name.takeWhile (· != 0x3d)) with
    | none => .error (.usage (.unknownOption (name.takeWhile (· != 0x3d))))
    | some f => (o.set f ((name.dropWhile (· != 0x3d)).drop 1)).mapError .value
  else .ok o

/-- Reads words with the given options; `first` says whether to stop at the first argument. -/
def Line.read (flags : List Flag) (first : Bool) (o : Options) : List Text → Line
  | [] => { options := o }
  | w :: ws =>
    if w = utf8 "--" then { options := o, args := w :: ws }
    else match optionName? w with
    | none =>
      if first then { options := o, args := w :: ws }
      else
        let l := read flags first o ws
        { l with args := w :: l.args }
    | some name =>
      match tryValue flags o name with
      | .error e => (read flags first o ws).fail e
      | .ok o =>
        match findFlag? flags name with
        | none => (read flags first o ws).fail (.usage (.unknownOption name))
        | some (f, unset) =>
          if f.kind = .bool then read flags first (o.switch (!unset) f) ws
          else match ws with
            | [] => { options := o, errors := [.usage (.noValue (f.names.headD []))] }
            | v :: ws =>
              match o.set f v with
              | .ok o => read flags first o ws
              | .error e => (read flags first o ws).fail (.value e)

end Command

end CallByValue
