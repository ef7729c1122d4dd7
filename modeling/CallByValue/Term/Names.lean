import CallByValue.Term.NameMap

/-!
# Names in terms

The free variables of a term are collected in one traversal that keeps a tally of the binders it is
under (`Term.freeVars`); whether a single name occurs free is asked without it (`Term.isFree`).

A fresh name is derived from a base: its trailing digits are dropped and the least positive number
is appended that gives a name outside the sets to avoid (`Name.fresh`).  A base that does not start like
a word takes the stem `v`, so that the result is one identifier.
-/

namespace CallByValue

/-! ### Free variables -/

namespace Term

/-- Adds the free variables of a term to `free`, where the names in the tally are bound. -/
def collectFree : Term → Tally × List Name → Tally × List Name
  | var x, (bound, free) => (bound, if bound.count x = 0 then free.insert x else free)
  | abs x b, (bound, free) =>
    let r := b.collectFree (bound.enter x, free)
    (r.1.leave x, r.2)
  | app f a, s => a.collectFree (f.collectFree s)

/-- The names that occur free in a term, each once. -/
def freeVars (t : Term) : List Name := (t.collectFree ({}, [])).2

/-- Whether `x` occurs free in a term. -/
def isFree (x : Name) : Term → Bool
  | var y => y == x
  | abs y b => if y == x then false else b.isFree x
  | app f a => f.isFree x || a.isFree x

end Term

/-! ### Fresh names -/

/-- The first number from `start` on that passes the test, or `start + bound` if the `bound` numbers
before it fail. -/
def leastFrom (ok : Nat → Bool) : (bound start : Nat) → Nat
  | 0, i => i
  | n + 1, i => if ok i then i else leastFrom ok n (i + 1)

namespace Name

/-- The part of a base that fresh names keep. -/
def stem (base : Name) : Name :=
  match (base.reverse.dropWhile isDigit).reverse with
  | [] => utf8 "v"
  | b :: s => if isWordStart b then b :: s else utf8 "v"

/-- The stem with a number. -/
def numbered (base : Name) (i : Nat) : Name := stem base ++ Text.ofNat i

/-- A name that is in none of the sets.  Distinct numbers give distinct names, so one of the first
numbers, one more than there are names to avoid, is free. -/
def fresh (base : Name) (avoid : List (List Name)) : Name :=
  numbered base (leastFrom (fun i => !avoid.any (·.contains (numbered base i)))
    avoid.flatten.length 1)

end Name

end CallByValue
