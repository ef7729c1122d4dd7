import CallByValue.Suite.Basic
import CallByValue.Yaml.Writer

/-!
# Writing suites

The fields of a suite and of its cases are written in a fixed order, and those that have their default
are left out, apart from the name and the input of a case and the list of cases.
-/

namespace CallByValue

/-- A key and what is written after it. -/
def keyField (key : String) (value : Text) : Text := utf8 key ++ utf8 ": " ++ value

/-- A key with a text. -/
def textField (key : String) (t : Text) : Text := keyField key (Yaml.writeScalar t)

/-- A key with a number. -/
def countField (key : String) (n : Nat) : Text := keyField key (Text.ofNat n)

/-- The fields of a case. -/
def Case.fields (c : Case) : List Text :=
  [textField "name" c.name, textField "input" c.input] ++
    (if c.output = [] then [] else [textField "output" c.output]) ++
    (if c.outcome = [] then [] else [textField "outcome" c.outcome]) ++
    (c.steps.toList.map (countField "steps")) ++
    (if c.maxSteps = 0 then [] else [countField "max_steps" c.maxSteps])

/-- The item of a case: a dash before its first line, and its other lines below the first. -/
def Case.write (c : Case) : Text :=
  utf8 "- " ++ Yaml.indentRest (Text.join (utf8 "\n") c.fields) ++ utf8 "\n"

/-- The item of a case that may be missing. -/
def Suite.writeItem : Option Case → Text
  | none => utf8 "- null\n"
  | some c => c.write

/-- A suite as a document. -/
def Suite.write (s : Suite) : Text :=
  (if s.maxSteps = 0 then [] else countField "max_steps" s.maxSteps ++ utf8 "\n") ++
    (if s.cases = [] then utf8 "cases: []\n"
    else utf8 "cases:\n" ++ s.cases.flatMap writeItem)

end CallByValue
