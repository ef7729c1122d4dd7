/-!
# Texts

Sources, names and everything that is printed are strings of bytes, which need not be valid
UTF-8; offsets count bytes.  A `Text` is the list of its bytes, so the lemmas on lists apply to it.

Words start with an ASCII letter or an underscore and go on with letters, underscores and decimal
digits.  White space are the characters with the Unicode property White_Space.  Numerals are made of
digits of bases up to sixteen.

A text that is written through a format must not be read as one, so each percent sign in it is doubled
before.  Formatting without operands makes a single sign of the two again, and the text comes out as it
was (`Text.formatted_doubled`).
-/

namespace CallByValue

/-- A string of bytes. -/
abbrev Text := List UInt8

/-- The bytes of a character string. -/
def utf8 (s : String) : Text := s.toList.flatMap String.utf8EncodeChar

namespace Text

/-- The newline byte. -/
def newline : UInt8 := 0x0a

/-- The decimal digits of a number. -/
def ofNat (n : Nat) : Text := (Nat.toDigits 10 n).map Char.toUInt8

/-- The decimal form of an integer, with a minus sign if it is negative. -/
def ofInt : Int → Text
  | .ofNat n => ofNat n
  | .negSucc n => utf8 "-" ++ ofNat (n + 1)

/-- `n` in decimal, filled with spaces on the left up to the given width. -/
def ofNatPadded (width n : Nat) : Text :=
  List.replicate (width - (ofNat n).length) 0x20 ++ ofNat n

/-- The value of a non-empty string of decimal digits. -/
def toNat? (t : Text) : Option Nat :=
  if t.isEmpty || !t.all (fun b => 0x30 ≤ b && b ≤ 0x39) then none
  else some (t.foldl (fun n b => 10 * n + (b.toNat - 0x30)) 0)

/-- Texts joined with a separator between neighbours. -/
def join (sep : Text) : List Text → Text
  | [] => []
  | [t] => t
  | t :: ts => t ++ sep ++ join sep ts

/-- The texts in ascending order of their bytes. -/
def sort (ts : List Text) : List Text := ts.mergeSort fun a b => decide (a ≤ b)

/-! ### Formats -/

/-- The percent sign. -/
def percent : UInt8 := 0x25

/-- The text with each percent sign written twice. -/
def doubled (t : Text) : Text := t.flatMap fun b => if b = percent then [percent, percent] else [b]

/-- A format without operands, written out.  Two percent signs stand for one; a single one asks for an
operand in the style that the next byte names, and what is written says that it is missing. -/
def formatted : Text → Text
  | [] => []
  | [b] => if b = percent then utf8 "%!(NOVERB)" else [b]
  | b :: c :: t =>
    if b ≠ percent then b :: formatted (c :: t)
    else if c = percent then percent :: formatted t
    else utf8 "%!" ++ c :: utf8 "(MISSING)" ++ formatted t

theorem formatted_cons {b : UInt8} (h : b ≠ percent) (t : Text) :
    formatted (b :: t) = b :: formatted t := by
  cases t with
  | nil => simp only [formatted, if_neg h]
  | cons c t => rw [formatted, if_pos h]

theorem formatted_percent (t : Text) : formatted (percent :: percent :: t) = percent :: formatted t := by
  rw [formatted, if_neg (by simp), if_pos rfl]

/-- A format that a text has been made into gives the text. -/
theorem formatted_doubled (t : Text) : formatted t.doubled = t := by
  induction t with
  | nil => rfl
  | cons b t ih =>
    by_cases h : b = percent
    · have hdoubled : doubled (b :: t) = percent :: percent :: doubled t := by rw [h]; rfl
      rw [hdoubled, formatted_percent, ih, h]
    · have hdoubled : doubled (b :: t) = b :: doubled t := by
        rw [doubled, List.flatMap_cons, if_neg h]
        rfl
      rw [hdoubled, formatted_cons h, ih]

end Text

/-! ### Words and white space -/

/-- Letters and the underscore. -/
def isWordStart (b : UInt8) : Bool :=
  (0x61 ≤ b && b ≤ 0x7a) || (0x41 ≤ b && b ≤ 0x5a) || b == 0x5f

/-- Decimal digits. -/
def isDigit (b : UInt8) : Bool := 0x30 ≤ b && b ≤ 0x39

/-- Letters, digits and the underscore. -/
def isWordByte (b : UInt8) : Bool := isWordStart b || isDigit b

/-- The white-space characters. -/
def isBlank (c : Char) : Bool :=
  let n := c.toNat
  (0x09 ≤ n && n ≤ 0x0d) || n == 0x20 || n == 0x85 || n == 0xa0 || n == 0x1680 ||
    (0x2000 ≤ n && n ≤ 0x200a) || n == 0x2028 || n == 0x2029 || n == 0x202f || n == 0x205f ||
    n == 0x3000

/-! ### Numerals -/

namespace Numeral

/-- The value of a digit up to `f`. -/
def digit? (b : UInt8) : Option Nat :=
  if 0x30 ≤ b && b ≤ 0x39 then some (b.toNat - 0x30)
  else if 0x61 ≤ b && b ≤ 0x66 then some (b.toNat - 0x61 + 10)
  else if 0x41 ≤ b && b ≤ 0x46 then some (b.toNat - 0x41 + 10)
  else none

/-- A digit of the given base, or an underscore. -/
def isNumeral (base : Nat) (b : UInt8) : Bool :=
  b == 0x5f || (digit? b).any (· < base)

/-- The number that digits spell; underscores do not count. -/
def value (base : Nat) (t : Text) : Nat :=
  (t.filterMap digit?).foldl (fun n d => base * n + d) 0

/-- The number that a text spells in the given base: at least one digit, and nothing else. -/
def value? (base : Nat) (t : Text) : Option Nat := do
  let ds ← t.mapM digit?
  if ds.isEmpty || ds.any (base ≤ ·) then none
  else return ds.foldl (fun n d => base * n + d) 0

end Numeral

end CallByValue
