/-!
# The nearest floating-point number

Floating-point numbers have 53 significant bits, and a finite one is a whole multiple of `2 ^ -1074`.
A ratio of natural numbers is rounded to the nearest of them in exact arithmetic, a tie to the one
with the even significand.
-/

namespace CallByValue

namespace Double

/-- The number of bits of a significand after its first one. -/
def fractionBits : Nat := 52

/-- The greatest number of places after the point. -/
def mostPlaces : Int := 1074

/-- The pattern of infinity, above the patterns of all finite numbers. -/
def infinityBits : Nat := 0x7ff <<< fractionBits

/-- `num / den` scaled by `2 ^ places`, again as a ratio. -/
def scaled (num den : Nat) (places : Int) : Nat × Nat :=
  if 0 ≤ places then (num <<< places.toNat, den) else (num, den <<< (-places).toNat)

/-- A ratio as a natural number, rounded to the nearest one and in a tie to the even one. -/
def roundRatio (num den : Nat) : Nat :=
  let q := num / den
  let r := 2 * (num % den)
  if den < r || (r = den && q % 2 = 1) then q + 1 else q

/-- The number of binary places that `num / den` is rounded to: as many as give 53 bits, and no more
than there are. -/
def placesOf (num den : Nat) : Int :=
  let guess : Int := (fractionBits : Int) - ((num.log2 : Int) - (den.log2 : Int))
  let (n, d) := scaled num den guess
  min mostPlaces (if n < d <<< fractionBits then guess + 1 else guess)

/-- The pattern of the positive number nearest to `num / den`, where neither is zero; that of infinity
or above if there is no finite one. -/
def nearestBits (num den : Nat) : Nat :=
  let places := placesOf num den
  let (n, d) := scaled num den places
  roundRatio n d + (mostPlaces - places).toNat <<< fractionBits

/-- The number nearest to `num / den`, if it is finite. -/
def nearest? (num den : Nat) : Option Float :=
  if num = 0 then some 0
  else
    let bits := nearestBits num den
    if bits < infinityBits then some (Float.ofBits (UInt64.ofNat bits)) else none

/-- A finite number as a whole multiple of a power of two. -/
structure Dyadic where
  /-- The significand. -/
  significand : Int
  /-- The exponent of the power of two. -/
  exponent : Int
  deriving DecidableEq, Repr

namespace Dyadic

/-- The exact value of a number, if it is finite. -/
def ofFloat? (x : Float) : Option Dyadic :=
  let bits := x.toBits.toNat
  let magnitude := bits % 1 <<< 63
  let e : Nat := magnitude >>> fractionBits
  let f : Nat := magnitude % 1 <<< fractionBits
  let sign : Int := if bits < 1 <<< 63 then 1 else -1
  if e = 0x7ff then none
  else if e = 0 then some ⟨sign * f, -mostPlaces⟩
  else some ⟨sign * ((f + 1 <<< fractionBits : Nat) : Int), (e : Int) - 1 - mostPlaces⟩

/-- The sum of two numbers. -/
def add (a b : Dyadic) : Dyadic :=
  let e := min a.exponent b.exponent
  let weight (exponent : Int) : Nat := 1 <<< (exponent - e).toNat
  ⟨a.significand * weight a.exponent + b.significand * weight b.exponent, e⟩

/-- The product of two numbers. -/
def mul (a b : Dyadic) : Dyadic :=
  ⟨a.significand * b.significand, a.exponent + b.exponent⟩

/-- The floating-point number nearest to a number, if it is finite. -/
def nearest? (a : Dyadic) : Option Float :=
  let (n, d) := scaled a.significand.natAbs 1 a.exponent
  (Double.nearest? n d).map fun x => if a.significand < 0 then -x else x

end Dyadic

/-- `a * b + c`, rounded once. -/
def fused (a b c : Float) : Float :=
  let exact : Option Float := do
    let s := ((← Dyadic.ofFloat? a).mul (← Dyadic.ofFloat? b)).add (← Dyadic.ofFloat? c)
    if s.significand = 0 then none else s.nearest?
  exact.getD (a * b + c)

end Double

end CallByValue
