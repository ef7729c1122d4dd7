import CallByValue.Text

/-!
# Palettes

Every piece of output has a role, and a palette says what is written before and after a piece of
each role.  The plain palette writes nothing; the colour palette writes terminal escape sequences,
also around an empty piece.

A style of its own writes a piece through a format, so percent signs in it are doubled first; the
fallback takes the piece as it is.
-/

namespace CallByValue

/-- What a piece of output is. -/
inductive Role where
  /-- The parameter of an abstraction. -/
  | binder
  /-- A variable that an enclosing abstraction binds. -/
  | boundVar
  /-- A variable that is free in the printed term. -/
  | freeVar
  /-- Lambdas, dots and parentheses. -/
  | punctuation
  /-- Text that an edit inserts. -/
  | insertion
  /-- Text that an edit deletes. -/
  | deletion
  /-- The mark of a passing case. -/
  | pass
  /-- The mark of a failing case. -/
  | fail
  deriving DecidableEq, Repr

/-- All roles, numbered by their place in the list. -/
def Role.all : List Role :=
  [binder, boundVar, freeVar, punctuation, insertion, deletion, pass, fail]

/-- What is written before and after a text. -/
structure Wrap where
  /-- Written before the text. -/
  before : Text := []
  /-- Written after the text. -/
  after : Text := []
  deriving DecidableEq, Repr

namespace Wrap

/-- The wrapped text. -/
def apply (w : Wrap) (t : Text) : Text := w.before ++ t ++ w.after

/-- The escape sequences that set and reset the given terminal attributes. -/
def escape (set reset : String) : Wrap where
  before := utf8 "\x1b[" ++ utf8 set ++ utf8 "m"
  after := utf8 "\x1b[" ++ utf8 reset ++ utf8 "m"

end Wrap

/-- How each role is written. -/
structure Palette where
  /-- The roles with a style of their own. -/
  style : Role → Option Wrap := fun _ => none
  /-- The style of everything else. -/
  fallback : Wrap := {}

namespace Palette

/-- A text in the style of a role; without a role it takes the fallback. -/
def paint (p : Palette) (role : Option Role) (t : Text) : Text :=
  match role.bind p.style with
  | some w => w.apply t.doubled.formatted
  | none => p.fallback.apply t

/-- No colours. -/
def plain : Palette := {}

/-- The colour of each role. -/
def colourOf : Role → Wrap
  | .binder => .escape "38;2;196;96;16" "0;22;0;0;0"
  | .boundVar => .escape "38;2;128;216;236" "0;22;0;0;0"
  | .freeVar => .escape "35;1" "0;22"
  | .punctuation => .escape "38;2;96;96;96" "0;22;0;0;0"
  | .insertion => .escape "32;1" "0;22"
  | .deletion => .escape "31;9" "0;29"
  | .pass => .escape "32" "0"
  | .fail => .escape "31;1" "0;22"

/-- Colours for a terminal. -/
def colours : Palette where
  style role := some (colourOf role)

end Palette

end CallByValue
