import CallByValue.Text.Printable

/-!
# Quoted texts

A text in double quotes, on one line and in printable characters only.  Printable characters
stand for themselves, a quote and a backslash are escaped by a backslash, the seven control
characters with a letter of their own are written with it, every other character by its number in
hexadecimal, and a stray byte by its value.
-/

namespace CallByValue

namespace Quoted

/-- The hexadecimal digit of a number below 16. -/
def hexDigit (n : Nat) : UInt8 :=
  if n < 10 then UInt8.ofNat (0x30 + n) else UInt8.ofNat (0x61 + (n - 10))

/-- The last `width` hexadecimal digits of a number. -/
def hex : (width : Nat) → Nat → Text
  | 0, _ => []
  | w + 1, n => hex w (n / 16) ++ [hexDigit (n % 16)]

/-- The letter that names a control character after a backslash. -/
def controlLetter? : Nat → Option Char
  | 0x07 => some 'a'
  | 0x08 => some 'b'
  | 0x09 => some 't'
  | 0x0a => some 'n'
  | 0x0b => some 'v'
  | 0x0c => some 'f'
  | 0x0d => some 'r'
  | _ => none

/-- The quoted form of a character. -/
def char (c : Char) : Text :=
  if c = '"' ∨ c = '\\' then utf8 "\\" ++ String.utf8EncodeChar c
  else if isPrintable c then String.utf8EncodeChar c
  else match controlLetter? c.toNat with
    | some l => utf8 "\\" ++ String.utf8EncodeChar l
    | none =>
      if c.toNat < 0x80 then utf8 "\\x" ++ hex 2 c.toNat
      else if c.toNat < 0x10000 then utf8 "\\u" ++ hex 4 c.toNat
      else utf8 "\\U" ++ hex 8 c.toNat

/-- The quoted form of a glyph. -/
def glyph : Glyph → Text
  | .char c => char c
  | .stray b => utf8 "\\x" ++ hex 2 b.toNat

end Quoted

/-- A text in double quotes. -/
def Text.quoted (t : Text) : Text :=
  utf8 "\"" ++ (Glyph.all t).flatMap Quoted.glyph ++ utf8 "\""

end CallByValue
