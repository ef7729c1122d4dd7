import CallByValue.Text

/-!
# Budgets

A budget decides after every step, from the number of steps and the size and depth of the term,
whether a run may go on.  It may also fail to decide, which ends the run too.
-/

namespace CallByValue

/-- What a budget sees of a run. -/
structure Reading where
  /-- The steps taken so far. -/
  steps : Nat
  /-- The size of the term. -/
  size : Nat
  /-- The depth of the term. -/
  depth : Nat
  deriving DecidableEq, Repr

/-- The answer of a budget. -/
inductive Verdict where
  /-- The run may go on. -/
  | holds
  /-- The run must stop. -/
  | spent
  /-- There is no answer. -/
  | failed
  deriving DecidableEq, Repr

/-- A budget: the text it was written as and what it decides. -/
structure Budget where
  /-- The source. -/
  source : Text
  /-- The decision. -/
  judge : Reading → Verdict

end CallByValue
