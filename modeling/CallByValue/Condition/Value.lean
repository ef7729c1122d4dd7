import CallByValue.Condition.Expr
import CallByValue.Double.Power

/-!
# The values of conditions

Integer arithmetic is in 64 bits and wraps around; an unsigned word that meets an integer is taken
as a signed one with the same bits.  Division and powers give floating-point numbers, and so does
everything that a floating-point number takes part in.  Some operations have no result, such as a
remainder by zero.
-/

namespace CallByValue

namespace Condition

/-- A value. -/
inductive Value where
  | nil
  | bool (b : Bool)
  /-- A byte of a string. -/
  | byte (b : UInt8)
  | word (w : UInt64)
  | int (n : Int64)
  | float (x : Float)
  | str (s : Text)
  | list (vs : List Value)
  /-- So many integers from the given one up. -/
  | range (lo : Int64) (size : Nat)

/-- What an evaluation may name. -/
structure Quantities where
  /-- The number of steps. -/
  steps : UInt64
  /-- The size of the term. -/
  size : Int64
  /-- The depth of the term. -/
  depth : Int64

namespace Value

/-- An integer, with an unsigned word taken as a signed one. -/
def toInt? : Value → Option Int64
  | byte b => some (Int64.ofNat b.toNat)
  | word w => some w.toInt64
  | int n => some n
  | _ => none

/-- A number as a floating-point number. -/
def toFloat? : Value → Option Float
  | byte b => some b.toFloat
  | word w => some w.toFloat
  | int n => some n.toFloat
  | float x => some x
  | _ => none

/-- Two integers as integers, other numbers as floating-point numbers. -/
def arith {α : Type} (onInt : Int64 → Int64 → α) (onFloat : Float → Float → α) (u v : Value) :
    Option α :=
  match u.toInt?, v.toInt? with
  | some m, some n => some (onInt m n)
  | _, _ => do return onFloat (← u.toFloat?) (← v.toFloat?)

/-- Whether two numbers are equal. -/
def equalNumbers (u v : Value) : Bool := (arith (· == ·) (· == ·) u v).getD false

/-- The least signed integer, which also stands for a number that is out of bounds. -/
def leastInt : Int64 := Int64.minValue

/-- A number cut off to an integer. -/
def truncated? : Value → Option Int64
  | float x => some (if -9223372036854775808 ≤ x && x < 9223372036854775808 then x.toInt64 else leastInt)
  | v => v.toInt?

/-- The number of integers from one to another. -/
def rangeLength (lo hi : Int64) : Nat := (hi - lo + 1).toInt.toNat

/-- Whether a list holds so many integers from the given one up, in order. -/
def isListed (lo : Int64) (size : Nat) (vs : List Value) : Bool :=
  vs.length == size && vs.zipIdx.all fun (v, i) => v.equalNumbers (int (lo + Int64.ofNat i))

mutual

/-- Whether two values are equal; numbers are compared by value, lists by their elements, and values
of different kinds are not equal. -/
def equal : Value → Value → Bool
  | nil, nil => true
  | bool a, bool b => a == b
  | str a, str b => a == b
  | list us, list vs => equalAll us vs
  | list vs, range lo n | range lo n, list vs => isListed lo n vs
  | range a m, range b n => m == n && (a == b || m == 0)
  | u, v => u.equalNumbers v

/-- Whether two lists have equal elements. -/
def equalAll : List Value → List Value → Bool
  | [], [] => true
  | u :: us, v :: vs => equal u v && equalAll us vs
  | _, _ => false

end

/-- Whether a value is one of so many integers from the given one up. -/
def inRange (lo : Int64) (size : Nat) : Value → Bool
  | float x => (List.range size).any fun i => (lo + Int64.ofNat i).toFloat == x
  | u => u.toInt?.any fun n => (n - lo).toUInt64.toNat < size

/-- Whether a value is an element of a list or range. -/
def member? (u : Value) : Value → Option Bool
  | list vs => some (vs.any u.equal)
  | range lo n => some (u.inRange lo n)
  | nil => some false
  | _ => none

/-- The first element of a list, or the first byte of a string; nothing if there is none. -/
def first : Value → Value
  | list (v :: _) => v
  | range lo n => if 0 < n then int lo else nil
  | str (b :: _) => byte b
  | _ => nil

/-- A comparison by order, of two numbers or two strings. -/
def compare? (onInt : Int64 → Int64 → Bool) (onFloat : Float → Float → Bool)
    (onStr : Text → Text → Bool) : Value → Value → Option Value
  | str a, str b => some (bool (onStr a b))
  | u, v => (arith onInt onFloat u v).map bool

/-- The result of an operator that needs both operands; ranges apart. -/
def operate? (op : BinaryOp) (u v : Value) : Option Value :=
  match op with
  | .or | .and | .range => none
  | .eq => some (bool (u.equal v))
  | .ne => some (bool (!u.equal v))
  | .lt => compare? (· < ·) (· < ·) (· < ·) u v
  | .le => compare? (· ≤ ·) (· ≤ ·) (· ≤ ·) u v
  | .gt => compare? (· > ·) (· > ·) (· > ·) u v
  | .ge => compare? (· ≥ ·) (· ≥ ·) (· ≥ ·) u v
  | .elem => (u.member? v).map bool
  | .add =>
    match u, v with
    | str a, str b => some (str (a ++ b))
    | u, v => arith (fun m n => int (m + n)) (fun x y => float (x + y)) u v
  | .sub => arith (fun m n => int (m - n)) (fun x y => float (x - y)) u v
  | .mul => arith (fun m n => int (m * n)) (fun x y => float (x * y)) u v
  | .div => do return float ((← u.toFloat?) / (← v.toFloat?))
  | .pow => do return float (Double.pow (← u.toFloat?) (← v.toFloat?))
  | .mod => do
    let m ← u.toInt?
    let n ← v.toInt?
    if n == 0 then none else some (int (m % n))

/-- The result of an operator on one operand. -/
def applyUnary? (op : UnaryOp) (v : Value) : Option Value :=
  match op, v with
  | .not, bool b => some (bool !b)
  | .neg, byte b => some (byte (-b))
  | .neg, word w => some (word (-w))
  | .neg, int n => some (int (-n))
  | .neg, float x => some (float (-x))
  | .pos, v => some v
  | _, _ => none

end Value

/-- The value of a quantity. -/
def Quantities.get (q : Quantities) : Quantity → Value
  | .steps => .word q.steps
  | .size => .int q.size
  | .depth => .int q.depth

end Condition

end CallByValue
