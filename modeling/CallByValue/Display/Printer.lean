import CallByValue.Display.Palette
import CallByValue.Term.NameMap

/-!
# The printer

Terms in the notation `λx y. body` with few parentheses: an application is in parentheses only as an
argument, an abstraction everywhere but at the top and as a body, and the parameters of nested
abstractions stand after one lambda.

A term is first laid out as a sequence of pieces, each a space or a text with its role, and the
pieces are then written with a palette.  So colours add to the plain output and change nothing in
it.

One tally of binders goes through the whole term and says which variables are bound.  The parameters
of a lambda are counted as they are read and are left together behind its body.
-/

namespace CallByValue

/-- A piece of a printed term. -/
inductive Piece where
  /-- A single space. -/
  | space
  /-- A text with its role. -/
  | text (role : Role) (t : Text)
  deriving DecidableEq, Repr

namespace Piece

/-- The piece as the palette writes it. -/
def render (p : Palette) : Piece → Text
  | space => utf8 " "
  | text role t => p.paint (some role) t

/-- The piece without its role. -/
def bare : Piece → Text
  | space => utf8 " "
  | text _ t => t

end Piece

/-- A notation for terms: how a lambda is spelled. -/
structure Printer where
  /-- The spelling of a lambda. -/
  lambda : Text

namespace Printer

/-- Writes `λ`. -/
def unicode : Printer := ⟨utf8 "λ"⟩

/-- Writes a backslash. -/
def ascii : Printer := ⟨utf8 "\\"⟩

/-- Where a term stands. -/
inductive Place where
  /-- The whole term. -/
  | top
  /-- The function of an application. -/
  | fn
  /-- The argument of an application. -/
  | arg
  /-- The body of an abstraction, right after a parameter. -/
  | body
  deriving DecidableEq, Repr

/-- A piece of punctuation. -/
def mark (s : String) : Piece := .text .punctuation (utf8 s)

/-- What stands between the last parameter and a body that is no abstraction. -/
def bodyStart : Place → List Piece
  | .body => [mark ".", .space]
  | _ => []

/-- A sequence of pieces in parentheses if `p` holds. -/
def parenthesised (p : Bool) (ps : List Piece) : List Piece :=
  if p then mark "(" :: ps ++ [mark ")"] else ps

/-- The pieces of a term at a place, and the tally of the binders around it after it is written.  The
parameters of the lambda whose body this is are in the tally too, and are left behind the term. -/
def write (pr : Printer) : Place → (params : List Name) → Term → Tally → List Piece × Tally
  | place, params, .var x, bound =>
    (bodyStart place ++ [.text (if 0 < bound.count x then .boundVar else .freeVar) x],
      params.foldl Tally.leave bound)
  | .body, params, .abs x b, bound =>
    let r := write pr .body (params ++ [x]) b (bound.enter x)
    (.space :: .text .binder x :: r.1, r.2)
  | place, params, .abs x b, bound =>
    let r := write pr .body [x] b (bound.enter x)
    (parenthesised (place != .top) (.text .punctuation pr.lambda :: .text .binder x :: r.1),
      params.foldl Tally.leave r.2)
  | place, params, .app f a, bound =>
    let left := write pr .fn [] f bound
    let right := write pr .arg [] a left.2
    (bodyStart place ++ parenthesised (place == .arg) (left.1 ++ .space :: right.1),
      params.foldl Tally.leave right.2)

/-- The pieces of a term. -/
def pieces (pr : Printer) (t : Term) : List Piece := (pr.write .top [] t {}).1

/-- A printed term. -/
def print (pr : Printer) (p : Palette) (t : Term) : Text := (pr.pieces t).flatMap (Piece.render p)

end Printer

/-- The term without colours, with backslashes for lambdas. -/
def Term.plain (t : Term) : Text := Printer.ascii.print .plain t

end CallByValue
