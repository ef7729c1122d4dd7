import CallByValue.Term.Subst

/-!
# Reduction

One call-by-value step, from left to right: the function of an application is reduced to an
abstraction before its argument is touched, the argument to an abstraction before the application
is contracted, and nothing is reduced under an abstraction.

The redex is found by walking down the spine of applications with the path back to the root in a
stack, so the depth of a term does not limit the walk.
-/

namespace CallByValue

namespace Term

/-- A step on the path from the root to the redex. -/
inductive Frame where
  /-- Into the function of an application with the given argument. -/
  | fn (arg : Term)
  /-- Into the argument of an application of the given function. -/
  | arg (fn : Term)
  deriving DecidableEq, Repr

/-- Puts a term back into the applications on a path, the innermost first. -/
def plug : List Frame → Term → Term
  | [], t => t
  | .fn a :: path, t => plug path (app t a)
  | .arg f :: path, t => plug path (app f t)

/-- Contracts the redex below the end of a path, if there is one. -/
def reduceAt : List Frame → Term → Option Term
  | path, app (abs x b) a =>
    if a.isValue then some (plug path (b.subst a x)) else reduceAt (.arg (abs x b) :: path) a
  | path, app f a => reduceAt (.fn a :: path) f
  | _, _ => none

/-- One step, or nothing if the term is a value or stuck. -/
def reduce (t : Term) : Option Term := reduceAt [] t

end Term

end CallByValue
