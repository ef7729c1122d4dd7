import CallByValue.Double.Nearest
import CallByValue.Text

/-!
# Number literals

How texts spell floating-point numbers: a sign, digits with a point among them, and an exponent.  A
literal is decimal, or hexadecimal after `0x` and then with a power of two as its exponent, which it
must have.  Underscores may stand between digits and after the `0x`.
-/

namespace CallByValue

namespace Double

/-- The number nearest to `digits * base ^ exponent`, if it is finite. -/
def ofScaled? (digits base : Nat) (exponent : Int) : Option Float :=
  let reach := ((Nat.toDigits base digits).length : Int) + exponent
  if digits = 0 || reach < -1200 then some 0
  else if 1200 < reach then none
  else if 0 ≤ exponent then nearest? (digits * Nat.pow base exponent.toNat) 1
  else nearest? digits (Nat.pow base (-exponent).toNat)

/-- A number as it is written. -/
structure Literal where
  /-- Whether there is a minus sign. -/
  negative : Bool
  /-- The digits without their point. -/
  digits : Nat
  /-- The base of the power that they are scaled by. -/
  base : Nat
  /-- The exponent of that power. -/
  exponent : Int
  deriving DecidableEq, Repr

namespace Literal

/-- A text without a sign at its start, and whether the sign is a minus. -/
def signed (t : Text) : Bool × Text :=
  match t with
  | 0x2d :: t => (true, t)
  | 0x2b :: t => (false, t)
  | t => (false, t)

/-- Whether a text starts like a hexadecimal number. -/
def isHex (t : Text) : Bool :=
  match t with
  | 0x30 :: x :: _ :: _ => x == 0x78 || x == 0x58
  | _ => false

/-- Whether every underscore in the digits of a base stands after a digit and before one; `afterDigit`
says whether a digit stands before the text. -/
def underscoresOk (base : Nat) (afterDigit : Bool) : Text → Bool
  | [] => true
  | b :: t =>
    if b == 0x5f then
      afterDigit && t.head?.any (fun b => (Numeral.digit? b).any (· < base)) && underscoresOk base false t
    else underscoresOk base ((Numeral.digit? b).any (· < base)) t

/-- The exponent after a letter of the given kind: digits, with a sign before them. -/
def exponentAfter? (letter : UInt8) (t : Text) : Option Int :=
  match t with
  | [] => none
  | b :: t =>
    if b == letter || b + 0x20 == letter then do
      let (negative, t) := signed t
      if t.head? = some 0x5f || !t.all (Numeral.isNumeral 10) || t.isEmpty then none
      else
        let n := Numeral.value 10 t
        return if negative then -n else n
    else none

/-- The literal that a text without a sign spells. -/
def unsigned? (negative : Bool) (t : Text) : Option Literal := do
  let hex := isHex t
  let base := if hex then 16 else 10
  let body := if hex then t.drop 2 else t
  let whole := body.takeWhile (Numeral.isNumeral base)
  let rest := body.dropWhile (Numeral.isNumeral base)
  let (fraction, rest) := match rest with
    | 0x2e :: rest => (rest.takeWhile (Numeral.isNumeral base), rest.dropWhile (Numeral.isNumeral base))
    | rest => ([], rest)
  let places := (fraction.filterMap Numeral.digit?).length
  if !underscoresOk base hex body || ((whole ++ fraction).filterMap Numeral.digit?).isEmpty then none
  let digits := Numeral.value base (whole ++ fraction)
  if hex then
    return ⟨negative, digits, 2, (← exponentAfter? 0x70 rest) - 4 * (places : Int)⟩
  else
    let e ← if rest.isEmpty then some 0 else exponentAfter? 0x65 rest
    return ⟨negative, digits, 10, e - (places : Int)⟩

/-- The literal that a text spells. -/
def read? (t : Text) : Option Literal :=
  let (negative, t) := signed t
  unsigned? negative t

/-- The number that a literal stands for, if it is finite. -/
def toFloat? (l : Literal) : Option Float :=
  (ofScaled? l.digits l.base l.exponent).map fun x => if l.negative then -x else x

end Literal

end Double

end CallByValue
