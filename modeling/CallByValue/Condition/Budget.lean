import CallByValue.Condition.Code
import CallByValue.Condition.Parser
import CallByValue.Condition.Typing
import CallByValue.Run.Budget

/-!
# Conditions as budgets

A budget is written as a condition, whose type is that of truth values if it is known.  To prepare it,
its types are checked from the operands up, and constant parts are computed: arithmetic on numbers,
where a remainder by zero is an error, and equality of two integers, strings or truth values.  A
constant operand decides a conjunction or disjunction alone.
-/

namespace CallByValue

namespace Condition

namespace Code

/-- Whether a code is a constant number. -/
def isNumber : Code → Bool
  | constant (.int _) | constant (.float _) => true
  | _ => false

/-- Whether a constant arithmetic operation is computed beforehand. -/
def isFolded : BinaryOp → Code → Code → Bool
  | .add, constant (.str _), constant (.str _) => true
  | .add, l, r | .sub, l, r | .mul, l, r | .div, l, r | .pow, l, r => l.isNumber && r.isNumber
  | .mod, constant (.int _), constant (.int _) => true
  | .eq, constant (.int _), constant (.int _) => true
  | .eq, constant (.str _), constant (.str _) => true
  | .eq, constant (.bool _), constant (.bool _) => true
  | _, _, _ => false

/-- A conjunction of computed operands. -/
def conjunction (l r : Code) : Code :=
  match l, r with
  | constant (.bool true), r => r
  | l, constant (.bool true) => l
  | constant (.bool false), _ | _, constant (.bool false) => constant (.bool false)
  | l, r => binary .and l r

/-- A disjunction of computed operands. -/
def disjunction (l r : Code) : Code :=
  match l, r with
  | constant (.bool false), r => r
  | l, constant (.bool false) => l
  | constant (.bool true), _ | _, constant (.bool true) => constant (.bool true)
  | l, r => binary .or l r

/-- Whether two values are equal, of the given types. -/
def equality (t u : Ty) (l r : Code) : Code :=
  if t == .int && u == .int then equalInts l r
  else if t == .str && u == .str then equalStrs l r
  else binary .eq l r

/-- Whether a value of the given type is in a list; whether an integer is between two constants is
asked of the bounds. -/
def membership (t : Ty) (l r : Code) : Code :=
  match r with
  | binary .range (constant (.int lo)) (constant (.int hi)) =>
    if t == .int then
      binary .and (binary .ge l (constant (.int lo))) (binary .le l (constant (.int hi)))
    else binary .elem l r
  | r => binary .elem l r

/-- The value of a constant operation; none for a remainder by zero. -/
def folded? (op : BinaryOp) : Code → Code → Option Code
  | constant u, constant v => (Value.operate? op u v).map constant
  | _, _ => none

/-- An operator on computed operands of the given types; none for a constant remainder by zero. -/
def operator? (op : BinaryOp) (t u : Ty) (l r : Code) : Option Code :=
  if isFolded op l r then folded? op l r
  else some (match op with
    | .and => conjunction l r
    | .or => disjunction l r
    | .eq => equality t u l r
    | .ne => unary .not (equality t u l r)
    | .elem => membership t l r
    | op => binary op l r)

/-- An operator on a computed operand. -/
def prefixOperator (op : UnaryOp) (c : Code) : Code :=
  match op, c with
  | .not, constant (.bool b) => constant (.bool !b)
  | .neg, constant (.int n) => constant (.int (-n))
  | .neg, constant (.float x) => constant (.float (-x))
  | .pos, constant (.int n) => constant (.int n)
  | .pos, constant (.float x) => constant (.float x)
  | op, c => unary op c

/-- The values of constant numbers; none if there is anything else. -/
def numbers? : List Code → Option (List Value)
  | [] => some []
  | constant v :: cs => if (constant v).isNumber then (numbers? cs).map (v :: ·) else none
  | _ :: _ => none

/-- A list of computed elements; one of numbers only is a constant, unless it is empty. -/
def listOf (cs : List Code) : Code :=
  match cs.isEmpty, numbers? cs with
  | false, some vs => constant (.list vs)
  | _, _ => list cs

end Code

/-- The literals of a list that values of the given type are looked up in: integers for an integer, or
strings for any value. -/
def Expr.keys? (t : Ty) : Expr → Option Keys
  | .list [] => none
  | .list es =>
    match if t == .int then es.mapM int? else none with
    | some ns => some (.ints ns)
    | none => (es.mapM str?).map .strs
  | _ => none
where
  /-- The integer that an expression spells. -/
  int? : Expr → Option Int64
    | .int n => some n
    | _ => none
  /-- The string that an expression spells. -/
  str? : Expr → Option Text
    | .str t => some t
    | _ => none

mutual

/-- The type and the prepared form of an expression; none if types do not fit, or for a constant
remainder by zero. -/
def Expr.prepare? : Expr → Option (Ty × Code)
  | .nil => some (.nil, .constant .nil)
  | .bool b => some (.bool, .constant (.bool b))
  | .int n => some (.int, .constant (.int n))
  | .float x => some (.float, .constant (.float x))
  | .str s => some (.str, .constant (.str s))
  | .quantity .steps => some (.word, .quantity .steps)
  | .quantity q => some (.int, .quantity q)
  | .unary op e => do
    let (t, c) ← e.prepare?
    return (← op.type? t, .prefixOperator op c)
  | .binary op l r => do
    let (t, lc) ← l.prepare?
    let (u, rc) ← r.prepare?
    let v ← op.type? t u
    match if op = .elem then r.keys? t else none with
    | some ks => return (v, .lookup lc ks)
    | none => return (v, ← Code.operator? op t u lc rc)
  | .cond c t e => do
    let (ct, cc) ← c.prepare?
    let (tt, tc) ← t.prepare?
    let (et, ec) ← e.prepare?
    return (← conditionalType? ct tt et, .cond cc tc ec)
  | .list es => do
    let ps ← prepareAll? es
    return (.list (elementType (ps.map (·.1))), .listOf (ps.map (·.2)))
  | .first e => do
    let (t, c) ← e.prepare?
    return (← firstType? t, .first c)

/-- The types and prepared forms of expressions. -/
def prepareAll? : List Expr → Option (List (Ty × Code))
  | [] => some []
  | e :: es => do
    let p ← e.prepare?
    let ps ← prepareAll? es
    return p :: ps

end

/-- The condition that a text spells. -/
def compile? (s : Text) : Option Code := do
  let (t, c) ← (← Expr.parse? s).prepare?
  if t == .bool || t.isUnknown then some c else none

/-- What a condition decides; a value that is no truth value counts as false. -/
def Code.judge (c : Code) (q : Quantities) : Verdict :=
  match c.value? q with
  | none => .failed
  | some (.bool true) => .holds
  | some _ => .spent

end Condition

/-- The budget that a text spells. -/
def Budget.compile? (s : Text) : Option Budget := do
  let c ← Condition.compile? s
  return { source := s
           judge := fun r => c.judge ⟨UInt64.ofNat r.steps, Int64.ofNat r.size, Int64.ofNat r.depth⟩ }

end CallByValue
