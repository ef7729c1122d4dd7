import CallByValue.Double.Shortest
import CallByValue.Yaml.Number

/-!
# YAML nodes

The part of YAML that suites are written in: scalars, lists, and maps with scalars as keys.

A scalar fills a field by what it stands for: a field for a text takes every scalar by its standard
text, and a field for a count takes numbers, which are cut off to whole ones.
-/

namespace CallByValue

namespace Yaml

/-- What a scalar stands for. -/
inductive Scalar where
  /-- Nothing. -/
  | null
  /-- A truth value. -/
  | bool (b : Bool)
  /-- An integer. -/
  | int (n : Int)
  /-- A floating-point number. -/
  | float (x : Float)
  /-- A text. -/
  | text (t : Text)

namespace Scalar

/-- The plain scalars with a fixed meaning. -/
def words : List (Text × Scalar) :=
  [(utf8 "null", null), (utf8 "Null", null), (utf8 "NULL", null), (utf8 "~", null),
    (utf8 "true", bool true), (utf8 "True", bool true), (utf8 "TRUE", bool true),
    (utf8 "false", bool false), (utf8 "False", bool false), (utf8 "FALSE", bool false),
    (utf8 ".inf", float (1 / 0)), (utf8 ".Inf", float (1 / 0)), (utf8 ".INF", float (1 / 0)),
    (utf8 "-.inf", float (-1 / 0)), (utf8 "-.Inf", float (-1 / 0)), (utf8 "-.INF", float (-1 / 0)),
    (utf8 ".nan", float (0 / 0)), (utf8 ".NaN", float (0 / 0)), (utf8 ".NAN", float (0 / 0))]

/-- What a plain scalar stands for: a word with a fixed meaning, a number, or else a text. -/
def ofPlain (t : Text) : Scalar :=
  match words.lookup t with
  | some s => s
  | none =>
    match Number.read? t with
    | some (.int n) => int n
    | some (.fraction x) => float x
    | _ => text t

/-- Whether a scalar is a text. -/
def isText : Scalar → Bool
  | text _ => true
  | _ => false

/-- The standard text of a scalar. -/
def toText : Scalar → Text
  | null => []
  | bool true => utf8 "true"
  | bool false => utf8 "false"
  | int n => Text.ofInt n
  | float x => Double.toText x
  | text t => t

/-- The whole part of a number from 0 to 2⁶⁴, where 2⁶⁴ itself becomes 2⁶³. -/
def wordOfFloat? (x : Float) : Option Nat :=
  if 0 ≤ x && x ≤ 18446744073709551616 then
    some (if x == 18446744073709551616 then 1 <<< 63 else x.toUInt64.toNat)
  else none

/-- The count that a scalar stands for: nothing for nothing, and none if it is no number or out of
bounds.  A text may be any number literal. -/
def count? : Scalar → Option (Option Nat)
  | null => some none
  | bool _ => none
  | int n => if 0 ≤ n then some (some n.toNat) else none
  | float x => (wordOfFloat? x).map some
  | text t => ((Double.Literal.read? t).bind Double.Literal.toFloat?).bind fun x => (wordOfFloat? x).map some

end Scalar

/-- What a YAML document says. -/
inductive Node where
  /-- A scalar. -/
  | scalar (s : Scalar)
  /-- A list. -/
  | list (ns : List Node)
  /-- A map, in the order in which it is written. -/
  | map (entries : List (Scalar × Node))

/-- The node of nothing. -/
def Node.null : Node := .scalar .null

/-- Whether a node stands for nothing. -/
def Node.isNull : Node → Bool
  | .scalar .null => true
  | _ => false

end Yaml

end CallByValue
