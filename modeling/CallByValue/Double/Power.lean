import CallByValue.Double.Nearest

/-!
# Powers

Powers of floating-point numbers, to the last bit as a fixed scheme of operations gives them.  The
whole part of an exponent is worked off by squaring a significand, the rest by the exponential of a
logarithm.  The logarithm is a polynomial in `f / (2 + f)`, where `1 + f` is near one; the exponential
is a Taylor polynomial at a sixteenth of the argument that four squarings bring back, in operations
that round a product and a sum at once.
-/

namespace CallByValue

namespace Double

/-- The natural logarithm of a positive number. -/
def log (x : Float) : Float :=
  let (f₀, k₀) := x.frExp
  let (f₁, k₁) := if f₀ < 0.70710678118654752440 then (f₀ * 2, k₀ - 1) else (f₀, k₀)
  let f := f₁ - 1
  let k := Float.ofInt k₁
  let s := f / (2 + f)
  let s2 := s * s
  let s4 := s2 * s2
  let t1 := s2 * (6.666666666666735130e-01 + s4 * (2.857142874366239149e-01 +
    s4 * (1.818357216161805012e-01 + s4 * 1.479819860511658591e-01)))
  let t2 := s4 * (3.999999999940941908e-01 + s4 * (2.222219843214978396e-01 +
    s4 * 1.531383769920937332e-01))
  let r := t1 + t2
  let half := 0.5 * f * f
  k * 6.93147180369123816490e-01 -
    ((half - (s * (half + r) + k * 1.90821492927058770002e-10)) - f)

/-- The nearest whole number to a small one, a tie to the even one. -/
def roundEven (x : Float) : Float := (x + 6755399441055744) - 6755399441055744

/-- The coefficients of the exponential's polynomial, from the highest power down. -/
def expCoefficients : List Float :=
  [1.9841269841269841270e-4, 1.3888888888888888889e-3, 8.3333333333333333333e-3,
    4.1666666666666666667e-2, 1.6666666666666666667e-1, 0.5, 1]

/-- The exponential of a number whose exponential is a normal number. -/
def exp (x : Float) : Float :=
  let k := roundEven (1.4426950408889634073599246810018920 * x)
  let x := fused (-0.69314718055966295651160180568695068359375) k x
  let x := fused (-0.28235290563031577122588448175013436025525412068e-12) k x
  let x := x * 0.0625
  let y := expCoefficients.foldl (fun y c => fused y x c) 2.4801587301587301587e-5
  let x := x * y
  let x := x * (x + 2)
  let x := x * (x + 2)
  let x := x * (x + 2)
  (fused x (x + 2) 1).scaleB k.toInt64.toInt

/-- Whether a number is a whole odd one. -/
def isOdd (x : Float) : Bool :=
  x.abs < 9007199254740992 && x.floor == x && x.abs.toUInt64 % 2 == 1

/-- `a * 2 ^ e` times the `n`-th power of `x * 2 ^ k`, where `x` is at least a half and less than one.
A base that is out of all bounds decides alone. -/
def wholePower : (fuel : Nat) → (a : Float) → (e : Int) → (x : Float) → (k : Int) → (n : Nat) →
    Float × Int
  | 0, a, e, _, _, _ => (a, e)
  | fuel + 1, a, e, x, k, n =>
    if n = 0 then (a, e)
    else if k < -4096 || 4096 < k then (a, e + k)
    else
      let (a, e) := if n % 2 = 1 then (a * x, e + k) else (a, e)
      let x := x * x
      let (x, k) := if x < 0.5 then (x + x, 2 * k - 1) else (x, 2 * k)
      wholePower fuel a e x k (n / 2)

/-- A number to a power, where neither is an edge case. -/
def finitePower (x y : Float) : Float :=
  let whole := y.abs.floor
  let part := y.abs - whole
  if part != 0 && x < 0 then 0 / 0
  else if 9223372036854775808 ≤ whole then
    if x == -1 then 1 else if (x.abs < 1) == (0 < y) then 0 else 1 / 0
  else
    let (whole, part) := if 0.5 < part then (whole + 1, part - 1) else (whole, part)
    let a := if part != 0 then exp (part * log x) else 1
    let (x, k) := x.frExp
    let (a, e) := wholePower 65 a 0 x k whole.toUInt64.toNat
    if y < 0 then (1 / a).scaleB (-e) else a.scaleB e

/-- A number to a power.  The zeroth power is one even of what is no number, and so is every power of
one. -/
def pow (x y : Float) : Float :=
  if y == 0 || x == 1 then 1
  else if y == 1 then x
  else if x.isNaN || y.isNaN then 0 / 0
  else if x == 0 then
    let x := if isOdd y then x else 0
    if y < 0 then 1 / x else x
  else if y.isInf then
    if x == -1 then 1 else if (x.abs < 1) == (0 < y) then 0 else 1 / 0
  else if x.isInf then
    let x := if isOdd y then x else x.abs
    if y < 0 then 1 / x else x
  else if y == 0.5 then x.sqrt
  else if y == -0.5 then 1 / x.sqrt
  else finitePower x y

end Double

end CallByValue
