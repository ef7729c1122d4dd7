import CallByValue.Suite.Basic
import CallByValue.Yaml.Document

/-!
# Reading suites

A suite is read from a YAML document with a fixed set of keys.  A key that is absent or has no value
leaves its default; any other key makes the document wrong.  A map with a key that is no text counts as
an empty one.
-/

namespace CallByValue

open Yaml (Node Scalar)

namespace Yaml.Node

/-- The text of a field. -/
def readText? : Node → Option Text
  | .scalar s => some s.toText
  | _ => none

/-- The number of a field; nothing if the field has no value. -/
def readCount? : Node → Option (Option Nat)
  | .scalar s => s.count?
  | _ => none

/-- A key that is a text. -/
def textKey? : Scalar × Node → Option (Text × Node)
  | (.text t, n) => some (t, n)
  | _ => none

/-- The entries of a map with no other keys than the given ones, each at most once. -/
def entriesOf? (keys : List Text) : Node → Option (List (Text × Node))
  | .map es =>
    match es.mapM textKey? with
    | none => some []
    | some es => if es.all (keys.contains ·.1) && (es.map (·.1)).Nodup then some es else none
  | _ => none

/-- The value of a key. -/
def field (es : List (Text × Node)) (key : String) : Node := (es.lookup (utf8 key)).getD .null

end Yaml.Node

namespace Case

/-- The keys of a case. -/
def keys : List Text := ["name", "input", "output", "outcome", "steps", "max_steps"].map utf8

/-- The case that a node describes. -/
def ofNode? (n : Node) : Option Case := do
  let es ← n.entriesOf? keys
  return {
    name := ← (Node.field es "name").readText?
    input := ← (Node.field es "input").readText?
    output := ← (Node.field es "output").readText?
    outcome := ← (Node.field es "outcome").readText?
    steps := ← (Node.field es "steps").readCount?
    maxSteps := (← (Node.field es "max_steps").readCount?).getD 0 }

end Case

namespace Suite

/-- The keys of a suite. -/
def keys : List Text := ["max_steps", "cases"].map utf8

/-- The case that an item of the list describes. -/
def itemOfNode? (n : Node) : Option (Option Case) :=
  if n.isNull then some none else (Case.ofNode? n).map some

/-- The cases that a node describes. -/
def casesOfNode? (n : Node) : Option (List (Option Case)) :=
  if n.isNull then some []
  else match n with
    | .list ns => ns.mapM itemOfNode?
    | _ => none

/-- The suite that a node describes. -/
def ofNode? (n : Node) : Option Suite := do
  let es ← n.entriesOf? keys
  return {
    maxSteps := (← (Node.field es "max_steps").readCount?).getD 0
    cases := ← casesOfNode? (Node.field es "cases") }

/-- The suite that a text describes: that of its first document that is not empty, or else the empty
one. -/
def read? (t : Text) : Option Suite := do
  match ← Node.readAll? t with
  | [] => some {}
  | n :: _ => ofNode? n

/-- Why a suite cannot be loaded. -/
inductive LoadError where
  /-- The document does not describe a suite. -/
  | malformed
  /-- The suite is wrong. -/
  | faulty (f : Fault)
  deriving DecidableEq, Repr

/-- The message of an error; what is wrong with a document is not told. -/
def LoadError.message : LoadError → Text
  | malformed => utf8 "invalid suite: malformed document"
  | faulty f => f.message

/-- The validated suite that a document describes, if documents are decoded so. -/
def loadWith (decode : Text → Option Suite) (t : Text) : Except LoadError Suite :=
  match decode t with
  | none => .error .malformed
  | some s =>
    match s.validate with
    | (_, some f) => .error (.faulty f)
    | (s, none) => .ok s

/-- The validated suite that a document describes. -/
def load : Text → Except LoadError Suite := loadWith read?

end Suite

end CallByValue
