import CallByValue.Text

/-!
# Conditions

A condition is an expression over the number of steps and the size and depth of a term.  It has
integers of 64 bits, floating-point numbers, truth values, strings, lists and ranges.
-/

namespace CallByValue

namespace Condition

/-- The quantities that a condition may name. -/
inductive Quantity where
  /-- The number of steps, an unsigned word. -/
  | steps
  /-- The size of the term. -/
  | size
  /-- The depth of the term. -/
  | depth
  deriving DecidableEq, Repr

/-- Operators on two operands. -/
inductive BinaryOp where
  | or
  | and
  | eq
  | ne
  | lt
  | le
  | gt
  | ge
  | elem
  | range
  | add
  | sub
  | mul
  | div
  | mod
  | pow
  deriving DecidableEq, Repr

/-- Operators on one operand. -/
inductive UnaryOp where
  | not
  | neg
  | pos
  deriving DecidableEq, Repr

namespace BinaryOp

/-- How tightly an operator binds. -/
def precedence : BinaryOp → Nat
  | or => 10
  | and => 15
  | eq | ne | lt | le | gt | ge | elem => 20
  | range => 25
  | add | sub => 30
  | mul | div | mod => 60
  | pow => 100

/-- The least precedence of a right operand; all operators but the power associate to the left. -/
def rightPrecedence : BinaryOp → Nat
  | pow => 100
  | op => op.precedence + 1

/-- Whether the operator compares by order; such comparisons chain. -/
def isOrder : BinaryOp → Bool
  | lt | le | gt | ge => true
  | _ => false

end BinaryOp

namespace UnaryOp

/-- How tightly an operator binds. -/
def precedence : UnaryOp → Nat
  | not => 50
  | neg | pos => 90

end UnaryOp

/-- An expression. -/
inductive Expr where
  | nil
  | bool (b : Bool)
  | int (n : Int64)
  | float (x : Float)
  | str (s : Text)
  | quantity (q : Quantity)
  | unary (op : UnaryOp) (e : Expr)
  | binary (op : BinaryOp) (l r : Expr)
  /-- The first expression if the condition holds, else the second. -/
  | cond (c t e : Expr)
  | list (es : List Expr)
  /-- The first element of a list, of a type that is not known. -/
  | first (e : Expr)

end Condition

end CallByValue
