import CallByValue.Condition.Token

/-!
# The grammar of conditions

Operators are read by precedence.  Comparisons by order chain: `1 < x < 5` is `1 < x && x < 5`.
A word `not` before `in` negates it; elsewhere negation binds tighter than a comparison.  The
conditional `c ? a : b` binds loosest, and `c ?: b` is `c ? c : b`.

Every function reads from the front of the tokens and gives what is left.
-/

namespace CallByValue

namespace Condition

mutual

/-- An expression whose operators have at least the given precedence. -/
def expression : (fuel precedence : Nat) → List Token → Option (Expr × List Token)
  | 0, _, _ => none
  | fuel + 1, prec, ts => do
    let (left, ts) ← primary fuel ts
    let (e, ts) ← operators fuel prec left ts
    if prec = 0 then conditionals fuel e ts else return (e, ts)

/-- Further operators and operands after a left operand. -/
def operators : (fuel precedence : Nat) → Expr → List Token → Option (Expr × List Token)
  | 0, _, _, _ => none
  | fuel + 1, prec, left, ts =>
    match ts with
    | .notWord :: .op .elem :: rest =>
      if BinaryOp.elem.precedence < prec then some (left, ts)
      else do
        let (right, ts) ← expression fuel BinaryOp.elem.rightPrecedence rest
        operators fuel prec (.unary .not (.binary .elem left right)) ts
    | .notWord :: _ => none
    | .op o :: rest =>
      if o.precedence < prec then some (left, ts)
      else if o.isOrder then do
        let (e, ts) ← comparisons fuel left o rest
        operators fuel prec e ts
      else do
        let (right, ts) ← expression fuel o.rightPrecedence rest
        operators fuel prec (.binary o left right) ts
    | _ => some (left, ts)

/-- A chain of comparisons after its first operand and operator. -/
def comparisons : (fuel : Nat) → Expr → BinaryOp → List Token → Option (Expr × List Token)
  | 0, _, _, _ => none
  | fuel + 1, left, o, ts => do
    let (right, ts) ← expression fuel o.rightPrecedence ts
    chain fuel (.binary o left right) right ts

/-- The rest of a chain of comparisons, `done` so far and with the last operand `left`. -/
def chain : (fuel : Nat) → (done left : Expr) → List Token → Option (Expr × List Token)
  | 0, _, _, _ => none
  | fuel + 1, done, left, ts =>
    match ts with
    | .op o :: rest =>
      if o.isOrder then do
        let (right, ts) ← expression fuel o.rightPrecedence rest
        chain fuel (.binary .and done (.binary o left right)) right ts
      else some (done, ts)
    | _ => some (done, ts)

/-- Conditionals after a condition. -/
def conditionals : (fuel : Nat) → Expr → List Token → Option (Expr × List Token)
  | 0, _, _ => none
  | fuel + 1, c, ts =>
    match ts with
    | .question :: .colon :: rest => do
      let (e, ts) ← expression fuel 0 rest
      conditionals fuel (.cond c c e) ts
    | .question :: rest => do
      let (t, ts) ← expression fuel 0 rest
      match ts with
      | .colon :: rest =>
        let (e, ts) ← expression fuel 0 rest
        conditionals fuel (.cond c t e) ts
      | _ => none
    | _ => some (c, ts)

/-- An operand. -/
def primary : (fuel : Nat) → List Token → Option (Expr × List Token)
  | 0, _ => none
  | fuel + 1, ts =>
    match ts with
    | .notWord :: rest | .notSign :: rest => prefixed fuel .not rest
    | .op .sub :: rest => prefixed fuel .neg rest
    | .op .add :: rest => prefixed fuel .pos rest
    | .leftParen :: rest => enclosed fuel rest
    | .firstWord :: .leftParen :: rest => do
      let (e, ts) ← enclosed fuel rest
      return (.first e, ts)
    | .leftBracket :: .rightBracket :: rest => some (.list [], rest)
    | .leftBracket :: rest => do
      let (es, ts) ← elements fuel rest
      return (.list es, ts)
    | .int n :: rest => some (.int n, rest)
    | .float x :: rest => some (.float x, rest)
    | .str s :: rest => some (.str s, rest)
    | .nilWord :: rest => some (.nil, rest)
    | .bool b :: rest => some (.bool b, rest)
    | .quantity q :: rest => some (.quantity q, rest)
    | _ => none

/-- The operand of an operator that stands before it. -/
def prefixed : (fuel : Nat) → UnaryOp → List Token → Option (Expr × List Token)
  | 0, _, _ => none
  | fuel + 1, o, ts => do
    let (e, ts) ← expression fuel o.precedence ts
    return (.unary o e, ts)

/-- An expression up to a closing parenthesis. -/
def enclosed : (fuel : Nat) → List Token → Option (Expr × List Token)
  | 0, _ => none
  | fuel + 1, ts => do
    let (e, ts) ← expression fuel 0 ts
    match ts with
    | .rightParen :: rest => return (e, rest)
    | _ => none

/-- The elements of a list up to its closing bracket; a comma may stand before it. -/
def elements : (fuel : Nat) → List Token → Option (List Expr × List Token)
  | 0, _ => none
  | fuel + 1, ts => do
    let (e, ts) ← expression fuel 0 ts
    match ts with
    | .rightBracket :: rest => return ([e], rest)
    | .comma :: .rightBracket :: rest => return ([e], rest)
    | .comma :: rest =>
      let (es, ts) ← elements fuel rest
      return (e :: es, ts)
    | _ => none

end

/-- The greatest number of parts of an expression. -/
def partLimit : Nat := 10000

/-- The expression that a text spells, unless it has too many parts. -/
def Expr.parse? (s : Text) : Option Expr := do
  let s := s.repaired
  let ts ← tokens? (s.length + 1) s
  if partLimit < ts.countP Token.isPart then none
  match expression (8 * ts.length + 8) 0 ts with
  | some (e, []) => some e
  | _ => none

end Condition

end CallByValue
