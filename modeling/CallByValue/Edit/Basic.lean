import CallByValue.Text.Glyph
import CallByValue.Display.Palette

/-!
# Edit scripts

An edit script turns one text into another: its edits keep, insert or delete a piece of text.  Read
without its insertions it spells the old text, without its deletions the new one.
-/

namespace CallByValue

namespace Edit

/-- What an edit does with its text. -/
inductive Kind where
  /-- Both texts have it. -/
  | keep
  /-- Only the new text has it. -/
  | insert
  /-- Only the old text has it. -/
  | delete
  deriving DecidableEq, Repr

end Edit

/-- An edit. -/
structure Edit where
  /-- What is done. -/
  kind : Edit.Kind
  /-- The text it is done with. -/
  text : Text
  deriving DecidableEq, Repr

namespace Edit

/-- The bytes of a string of characters. -/
def spell (cs : List Char) : Text := cs.flatMap String.utf8EncodeChar

/-- The characters that a text shows. -/
def characters (t : Text) : List Char := (Glyph.all t).map Glyph.shown

/-- The number of glyphs in a text. -/
def width (t : Text) : Nat := (Glyph.all t).length

/-- An edit that keeps characters. -/
def keep (cs : List Char) : Edit := ⟨.keep, spell cs⟩

/-- An edit that inserts characters. -/
def insert (cs : List Char) : Edit := ⟨.insert, spell cs⟩

/-- An edit that deletes characters. -/
def delete (cs : List Char) : Edit := ⟨.delete, spell cs⟩

/-! ### What two lists have in common -/

section

variable {α : Type} [DecidableEq α]

/-- The number of elements that two lists start with alike. -/
def prefixLength : List α → List α → Nat
  | a :: as, b :: bs => if a = b then prefixLength as bs + 1 else 0
  | _, _ => 0

/-- The number of elements that two lists end with alike. -/
def suffixLength (as bs : List α) : Nat := prefixLength as.reverse bs.reverse

/-- The list without its last `n` elements. -/
def dropLast (n : Nat) (as : List α) : List α := as.take (as.length - n)

/-- The last `n` elements of a list. -/
def takeLast (n : Nat) (as : List α) : List α := as.drop (as.length - n)

/-- The places from `i` on at which `p` stands in a list, in order. -/
def occurrences (p : List α) : (i : Nat) → List α → List Nat
  | i, [] => if p = [] then [i] else []
  | i, a :: as =>
    if p.isPrefixOf (a :: as) then i :: occurrences p (i + 1) as else occurrences p (i + 1) as

/-- The first place at which `p` stands in a list. -/
def indexOf? (p as : List α) : Option Nat := (occurrences p 0 as).head?

end

/-! ### Writing a script -/

/-- An edit as it is shown: in the palette's colours, or between brackets without a palette. -/
def render (palette : Option Palette) (e : Edit) : Text :=
  match e.kind, palette with
  | .keep, _ => e.text
  | .insert, none => utf8 "\x7b+" ++ e.text ++ utf8 "+\x7d"
  | .delete, none => utf8 "[-" ++ e.text ++ utf8 "-]"
  | .insert, some p => p.paint (some .insertion) e.text
  | .delete, some p => p.paint (some .deletion) e.text

end Edit

end CallByValue
