import CallByValue.Double.Nearest
import CallByValue.Text

/-!
# The shortest decimal

Of all decimals that read back as a given floating-point number the one with the fewest digits, and of
those the nearest.  The numbers that read back as it form an interval around it, whose ends belong to
it if its significand is even.  The grids of decimals with one digit, two digits and so on are tried
in turn, and on each only the two neighbours of the number.
-/

namespace CallByValue

namespace Double

/-- A positive number among decimals: the number, and the interval of what reads back as it, as
multiples of a power of two. -/
structure Target where
  /-- The number. -/
  value : Nat
  /-- The lower end of the interval. -/
  low : Nat
  /-- The upper end of the interval. -/
  high : Nat
  /-- Whether the ends belong to the interval. -/
  closed : Bool
  /-- The exponent of the power of two. -/
  exponent : Int
  deriving DecidableEq, Repr

/-- A decimal: some digits, and the power of ten to scale them by. -/
structure Decimal where
  /-- The digits. -/
  digits : Nat
  /-- The power of ten. -/
  scale : Int
  deriving DecidableEq, Repr

namespace Target

/-- The target of a significand and an exponent.  Below a power of two the numbers lie closer, unless
it is the least exponent. -/
def ofDyadic (significand : Nat) (exponent : Int) : Target :=
  let boundary := significand = 1 <<< fractionBits && -mostPlaces < exponent
  { value := 4 * significand
    low := 4 * significand - (if boundary then 1 else 2)
    high := 4 * significand + 2
    closed := significand % 2 = 0
    exponent := exponent - 2 }

/-- The target scaled so that the decimals with the given scale are the multiples of the second
component. -/
def onGrid (t : Target) (scale : Int) : Target × Nat :=
  let up := Nat.pow 10 (-scale).toNat <<< t.exponent.toNat
  let unit := Nat.pow 10 scale.toNat <<< (-t.exponent).toNat
  ({ t with value := t.value * up, low := t.low * up, high := t.high * up, exponent := 0 }, unit)

/-- Whether a multiple of the target's unit lies in its interval. -/
def holds (t : Target) (n : Nat) : Bool :=
  if t.closed then t.low ≤ n && n ≤ t.high else t.low < n && n < t.high

/-- The digits on a grid that read back as the number: of its two neighbours the one in the interval,
the nearer one if both are, and in a tie the even one. -/
def digits? (t : Target) (scale : Int) : Option Nat :=
  let (t, unit) := t.onGrid scale
  let d := t.value / unit
  let below := t.value - d * unit
  let above := (d + 1) * unit - t.value
  match t.holds (d * unit), t.holds ((d + 1) * unit) with
  | true, true =>
    some (if below < above || (below = above && d % 2 = 0) then d else d + 1)
  | true, false => some d
  | false, true => some (d + 1)
  | false, false => none

/-- The first grid with a decimal in the interval, from a scale on down. -/
def search (t : Target) : (fuel : Nat) → (scale : Int) → Decimal
  | 0, scale => ⟨0, scale⟩
  | fuel + 1, scale =>
    match t.digits? scale with
    | some d => ⟨d, scale⟩
    | none => t.search fuel (scale - 1)

end Target

/-- The decimal without zeros at its end, of which there are at most `fuel`. -/
def Decimal.trimmed : (fuel : Nat) → Decimal → Decimal
  | 0, d => d
  | fuel + 1, d => if d.digits ≠ 0 ∧ d.digits % 10 = 0 then trimmed fuel ⟨d.digits / 10, d.scale + 1⟩ else d

/-- The shortest decimal that reads back as a positive number. -/
def shortest (significand : Nat) (exponent : Int) : Decimal :=
  let t := Target.ofDyadic significand exponent
  let top := ((significand.log2 : Int) + exponent) * 30103 / 100000 + 1
  (t.search 22 top).trimmed 22

/-! ### Texts of numbers -/

/-- A decimal in positional notation, or with a power of ten where the point would stand before three
zeros or after more than six digits. -/
def Decimal.toText (d : Decimal) : Text :=
  let digits := Text.ofNat d.digits
  let count : Int := digits.length
  let e := d.scale + count - 1
  if e < -4 || 6 ≤ e then
    let (sign, size) := if e < 0 then (utf8 "-", (-e).toNat) else (utf8 "+", e.toNat)
    digits.take 1 ++ (if 1 < digits.length then utf8 "." ++ digits.drop 1 else []) ++ utf8 "e" ++ sign ++
      (if size < 10 then utf8 "0" else []) ++ Text.ofNat size
  else if e < 0 then utf8 "0." ++ List.replicate (-e - 1).toNat 0x30 ++ digits
  else
    let whole := e.toNat + 1
    if digits.length ≤ whole then digits ++ List.replicate (whole - digits.length) 0x30
    else digits.take whole ++ utf8 "." ++ digits.drop whole

/-- The text of a number. -/
def toText (x : Float) : Text :=
  if x.isNaN then utf8 "NaN"
  else
    let sign := if x.toBits < 0x8000000000000000 then [] else utf8 "-"
    match Dyadic.ofFloat? x with
    | none => if x < 0 then utf8 "-Inf" else utf8 "+Inf"
    | some d =>
      sign ++ if d.significand = 0 then utf8 "0"
        else (shortest d.significand.natAbs d.exponent).toText

end Double

end CallByValue
