import CallByValue.Condition.Value

/-!
# Prepared conditions

A condition is evaluated in a prepared form, where constants have their values and operators know more
of their operands: two integers or two strings are compared as such, and a search among constants is a
look-up.  Such an operator has no result on other operands.  An evaluation has room for a number of
list elements, and an operation without a result or without room makes it fail.
-/

namespace CallByValue

namespace Condition

/-- Constants that a value is looked up in. -/
inductive Keys where
  /-- Integers. -/
  | ints (ns : List Int64)
  /-- Strings. -/
  | strs (ts : List Text)
  deriving DecidableEq, Repr

/-- Whether a value is among constants; nothing counts as zero or as the empty string, and other values
must be of the constants' type. -/
def Keys.has? : Keys → Value → Option Bool
  | ints ns, .int n => some (ns.contains n)
  | ints ns, .nil => some (ns.contains 0)
  | strs ts, .str t => some (ts.contains t)
  | strs ts, .nil => some (ts.contains [])
  | _, _ => none

/-- A prepared condition. -/
inductive Code where
  | constant (v : Value)
  | quantity (q : Quantity)
  | unary (op : UnaryOp) (c : Code)
  | binary (op : BinaryOp) (l r : Code)
  /-- Whether two integers are equal. -/
  | equalInts (l r : Code)
  /-- Whether two strings are equal. -/
  | equalStrs (l r : Code)
  /-- Whether a value is among constants. -/
  | lookup (c : Code) (ks : Keys)
  | cond (c t e : Code)
  | list (cs : List Code)
  | first (c : Code)

/-- An evaluation, which keeps count of the list elements made so far and may fail. -/
abbrev Eval (α : Type) := StateT Nat Option α

namespace Eval

/-- The number of list elements that no evaluation has room for. -/
def roomLimit : Nat := 1000000

/-- Makes room for list elements. -/
def takeRoom (n : Nat) : Eval Unit := fun used =>
  if used + n < roomLimit then some ((), used + n) else none

/-- Goes on with the result of an operation, if it has one. -/
def ofOption {α : Type} (a : Option α) : Eval α := fun used => a.map (·, used)

/-- A truth value; other values fail. -/
def ofBool : Value → Eval Bool
  | .bool b => pure b
  | _ => ofOption none

/-- An integer; other values fail. -/
def ofInt : Value → Eval Int64
  | .int n => pure n
  | _ => ofOption none

/-- A string; other values fail. -/
def ofStr : Value → Eval Text
  | .str t => pure t
  | _ => ofOption none

/-- The integers between two numbers, for which room is made. -/
def range (u v : Value) : Eval Value := do
  let lo ← ofOption u.truncated?
  let hi ← ofOption v.truncated?
  let size := Value.rangeLength lo hi
  takeRoom size
  return .range lo size

/-- The result of an operator that needs both operands. -/
def operate (op : BinaryOp) (u v : Value) : Eval Value :=
  if op = .range then range u v else ofOption (Value.operate? op u v)

end Eval

mutual

/-- Evaluates a condition; conjunction, disjunction and conditionals look at their right operands only
if they need to. -/
def Code.eval (q : Quantities) : Code → Eval Value
  | .constant v => pure v
  | .quantity x => pure (q.get x)
  | .unary op c => do Eval.ofOption (Value.applyUnary? op (← c.eval q))
  | .binary .and l r => do
    if ← Eval.ofBool (← l.eval q) then r.eval q else return .bool false
  | .binary .or l r => do
    if ← Eval.ofBool (← l.eval q) then return .bool true else r.eval q
  | .binary op l r => do
    let u ← l.eval q
    let v ← r.eval q
    Eval.operate op u v
  | .equalInts l r => do
    let u ← l.eval q
    let v ← r.eval q
    return .bool ((← Eval.ofInt u) == (← Eval.ofInt v))
  | .equalStrs l r => do
    let u ← l.eval q
    let v ← r.eval q
    return .bool ((← Eval.ofStr u) == (← Eval.ofStr v))
  | .lookup c ks => do
    let b ← Eval.ofOption (ks.has? (← c.eval q))
    return .bool b
  | .cond c t e => do
    if ← Eval.ofBool (← c.eval q) then t.eval q else e.eval q
  | .list cs => do
    let vs ← evalAll q cs
    Eval.takeRoom vs.length
    return .list vs
  | .first c => do return (← c.eval q).first

/-- Evaluates conditions from left to right. -/
def evalAll (q : Quantities) : List Code → Eval (List Value)
  | [] => pure []
  | c :: cs => do
    let v ← c.eval q
    let vs ← evalAll q cs
    return v :: vs

end

/-- The value of a condition; none if its evaluation fails. -/
def Code.value? (c : Code) (q : Quantities) : Option Value := ((c.eval q).run 0).map (·.1)

end Condition

end CallByValue
