import CallByValue.Text

/-!
# Terms

Terms of the untyped lambda calculus with named variables.  A name is any text, also one that no
source can spell.
-/

namespace CallByValue

/-- The name of a variable. -/
abbrev Name := Text

/-- A lambda term. -/
inductive Term where
  /-- A variable. -/
  | var (x : Name)
  /-- An abstraction with its parameter and its body. -/
  | abs (x : Name) (body : Term)
  /-- An application of a function to an argument. -/
  | app (fn arg : Term)
  deriving DecidableEq, Repr, Inhabited

namespace Term

/-- The fully parenthesised form: `x`, `(x: body)` and `(f a)`. -/
def toText : Term → Text
  | var x => x
  | abs x b => utf8 "(" ++ x ++ utf8 ": " ++ b.toText ++ utf8 ")"
  | app f a => utf8 "(" ++ f.toText ++ utf8 " " ++ a.toText ++ utf8 ")"

/-- The number of nodes. -/
def size : Term → Nat
  | var _ => 1
  | abs _ b => 1 + b.size
  | app f a => 1 + f.size + a.size

/-- The height; a variable has depth 1. -/
def depth : Term → Nat
  | var _ => 1
  | abs _ b => 1 + b.depth
  | app f a => 1 + max f.depth a.depth

/-- Abstractions are the only values. -/
def isValue : Term → Bool
  | abs _ _ => true
  | _ => false

end Term

end CallByValue
