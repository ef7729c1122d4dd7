import CallByValue.Condition.Expr

/-!
# The types of conditions

The operators of an expression have to fit their operands as far as the types are known.  What
`first` gives has the type `any`.  What an operator makes of such a value, or a conditional of two
types that do not go together, has no type at all, `untyped`.  Both fit everywhere and are looked at
only when the condition is evaluated.
-/

namespace CallByValue

namespace Condition

/-- The type of an expression. -/
inductive Ty where
  /-- The type of every value. -/
  | any
  /-- No type. -/
  | untyped
  | nil
  | bool
  /-- Unsigned words. -/
  | word
  | int
  | float
  | str
  | list (elem : Ty)
  deriving DecidableEq, Repr

namespace Ty

/-- Whether a type has only integers. -/
def isInteger : Ty → Bool
  | word | int => true
  | _ => false

/-- Whether a type has only numbers. -/
def isNumber (t : Ty) : Bool := t.isInteger || t == float

/-- Whether nothing is known before evaluation. -/
def isUnknown : Ty → Bool
  | any | untyped => true
  | _ => false

/-- Whether two types are of the same form, whatever their elements. -/
def sameForm : Ty → Ty → Bool
  | list _, list _ => true
  | nil, untyped | untyped, nil => true
  | t, u => t == u

/-- Whether values of two types may be tested for equality. -/
def comparable (t u : Ty) : Bool :=
  t.isUnknown || u.isUnknown || t == nil || u == nil || sameForm t u || (t.isNumber && u.isNumber)

/-- Whether both types pass a test, or one does and the other is not known, or both are not. -/
def both (p : Ty → Bool) (t u : Ty) : Bool :=
  (p t && p u) || (t.isUnknown && (u.isUnknown || p u)) || (u.isUnknown && p t)

/-- The type of a sum, difference or product of numbers. -/
def combined (t u : Ty) : Ty :=
  if t.isUnknown || u.isUnknown then untyped
  else if t == float || u == float then float
  else int

/-- Whether every value of the first type has the second. -/
def fits (t u : Ty) : Bool :=
  t != untyped && u != untyped && (u == any || sameForm t u)

/-- The type of a conditional. -/
def merge (t u : Ty) : Ty :=
  if t == nil then u
  else if u == nil then t
  else if t.fits u then t
  else untyped

end Ty

/-- The type of an operator's result, if the operands fit. -/
def BinaryOp.type? (op : BinaryOp) (l r : Ty) : Option Ty :=
  let ok (b : Bool) (t : Ty) : Option Ty := if b then some t else none
  match op with
  | .or | .and => ok (Ty.both (· == .bool) l r) .bool
  | .eq | .ne => ok (l.comparable r) .bool
  | .lt | .le | .gt | .ge => ok (Ty.both Ty.isNumber l r || Ty.both (· == .str) l r) .bool
  | .add =>
    if l == .str && r == .str then some .str
    else if Ty.both (· == .str) l r then some .untyped
    else ok (Ty.both Ty.isNumber l r) (l.combined r)
  | .sub | .mul => ok (Ty.both Ty.isNumber l r) (l.combined r)
  | .div | .pow => ok (Ty.both Ty.isNumber l r) .float
  | .mod => ok (Ty.both Ty.isInteger l r) .int
  | .range => ok (Ty.both Ty.isInteger l r) (.list .int)
  | .elem =>
    match r with
    | .list e => ok (l.comparable e) .bool
    | .str => ok l.isUnknown .bool
    | r => ok r.isUnknown .bool

/-- The type of an operator's result, if the operand fits. -/
def UnaryOp.type? (op : UnaryOp) (t : Ty) : Option Ty :=
  match op with
  | .not => if t == .bool || t.isUnknown then some .bool else none
  | .neg | .pos => if t.isNumber then some t else if t.isUnknown then some .untyped else none

/-- The type of a list's elements: that of the last one if all are of the same form. -/
def elementType : List Ty → Ty
  | [] => .untyped
  | [t] => t
  | t :: u :: ts => if t.sameForm u then elementType (u :: ts) else .untyped

/-- The type of a conditional's result, if the condition fits. -/
def conditionalType? (c t e : Ty) : Option Ty :=
  if c == .bool || c.isUnknown then some (t.merge e) else none

/-- The type of a first element, if the operand may have one. -/
def firstType? : Ty → Option Ty
  | .list _ | .any | .untyped => some .any
  | _ => none

end Condition

end CallByValue
