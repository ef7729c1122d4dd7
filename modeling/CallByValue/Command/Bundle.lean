import CallByValue.Command.Directory
import CallByValue.Command.Program
import CallByValue.Suite.Writer

/-!
# The bundled suite

A suite of reductions that shows what call-by-value evaluation does, and the command that writes it.
Terms are written with all their parentheses.
-/

namespace CallByValue

namespace Bundle

/-- A case of the bundled suite. -/
structure Sample where
  /-- The name. -/
  name : String
  /-- The source of the term. -/
  input : String
  /-- The source of the expected term; none if it is empty. -/
  output : String
  /-- The expected outcome. -/
  outcome : Expectation
  /-- The expected number of steps. -/
  steps : Option Nat
  deriving Repr

/-- The cases. -/
def samples : List Sample :=
  [⟨"001_id", "x: x", "y: y", .value, some 0⟩,
   ⟨"002_id_id", "(x: x) (y: y)", "z: z", .value, some 1⟩,
   ⟨"003_k_values", "(x: y: x) (a: a) (b: b)", "a: a", .value, some 2⟩,
   ⟨"004_k_second", "(x: y: y) (a: a) (b: b)", "b: b", .value, some 2⟩,
   ⟨"005_k_free_args", "(x: y: x) a b", "(x: y: x) a b", .stuck, some 0⟩,
   ⟨"010_arg_first", "(x: x) ((y: y) (z: z))", "z: z", .value, some 2⟩,
   ⟨"011_no_reduction_under_lambda", "x: (y: y) x", "x: (y: y) x", .value, some 0⟩,
   ⟨"012_self_app_id", "(x: x x) (y: y)", "y: y", .value, some 2⟩,
   ⟨"013_church_two_id", "(f: x: f (f x)) (y: y) (z: z)", "z: z", .value, some 4⟩,
   ⟨"020_not_true", "(b: b (x: y: y) (x: y: x)) (x: y: x)", "x: y: y", .value, some 3⟩,
   ⟨"021_and_true_false", "(p: q: p q p) (x: y: x) (x: y: y)", "x: y: y", .value, some 4⟩,
   ⟨"030_pair_fst", "(p: p (x: y: x)) ((x: y: f: f x y) (a: a) (b: b))", "a: a", .value, some 6⟩,
   ⟨"040_let_free", "let x = a; in x", "(x: x) a", .stuck, some 0⟩,
   ⟨"041_let_id", "let i = x: x; in i (a: a)", "a: a", .value, some 2⟩,
   ⟨"050_capture", "(x: y: x) (z: y)", "w: z: y", .value, some 1⟩,
   ⟨"060_share_app", "(f: f (f x)) (y: y)", "(y: y) ((y: y) x)", .stuck, some 1⟩,
   ⟨"061_stuck_arg", "(x: x) (y z)", "(x: x) (y z)", .stuck, some 0⟩,
   ⟨"090_free_1", "x", "x", .stuck, some 0⟩,
   ⟨"091_free_app", "x y", "x y", .stuck, some 0⟩,
   ⟨"100_omega", "(x: x x) (x: x x)", "", .diverges, none⟩,
   ⟨"101_diverging_arg", "(x: y: y) ((x: x x) (x: x x))", "", .diverges, none⟩]

/-- A source with all parentheses; nothing for an empty one. -/
def normalised (source : String) : Except SyntaxError Text :=
  if source = "" then .ok [] else (Term.parse (utf8 source)).map Term.toText

/-- The case of a sample. -/
def Sample.toCase (s : Sample) : Except Text Case := do
  let input ← (normalised s.input).mapError (wrong "input")
  let output ← (normalised s.output).mapError (wrong "output")
  return { name := utf8 s.name, input := input, output := output
           outcome := s.outcome.toText, steps := s.steps }
where
  /-- The message that a source is no term. -/
  wrong (field : String) (e : SyntaxError) : Text :=
    utf8 "Error parsing " ++ utf8 field ++ utf8 " for " ++ utf8 s.name ++ utf8 ": " ++ e.message

/-- The suite. -/
def suite : Except Text Suite := do
  let cases ← samples.mapM Sample.toCase
  let s : Suite := { maxSteps := 100, cases := cases.map some }
  match s.validate with
  | (s, none) => return s
  | (_, some f) => throw (utf8 "Error: " ++ f.message)

/-- The first line of the file. -/
def header : Text := utf8 "# Code generated by cmd/gentests; DO NOT EDIT.\n"

/-- Where the file is written if no path is given. -/
def defaultPath : Text := utf8 "pkg/suite/testdata/cbv.yaml"

/-- Writes the suite to a path, after making the directories on the way to it. -/
def writeTo (d : Directory) (path : Text) : Except Text Directory := do
  let s ← suite
  let d ← (d.makeParents path).mapError fun (place, f) =>
    utf8 "Error: mkdir " ++ place ++ utf8 ": " ++ f.message
  (d.write path (header ++ s.write)).mapError fun f =>
    utf8 "Error writing " ++ path ++ utf8 ": " ++ f.writing path

/-- Runs the command on its words: the first one is the path. -/
def program (d : Directory) (words : List Text) : Command.Result × Directory :=
  match writeTo d (words.headD defaultPath) with
  | .ok d => ({ stdout := utf8 "Generated " ++ Text.ofNat samples.length ++ utf8 " tests\n" }, d)
  | .error e => ({ code := 1, stderr := e ++ utf8 "\n" }, d)

end Bundle

end CallByValue
