import CallByValue.Double.Literal

/-!
# Numbers

How plain scalars spell numbers: integers in four bases and fractions, with a sign and with underscores
anywhere but at the start.  A number has at most one point, and it is a fraction if it has one.
-/

namespace CallByValue

namespace Yaml

/-- A number that a plain scalar spells. -/
inductive Number where
  /-- An integer. -/
  | int (n : Int)
  /-- A fraction. -/
  | fraction (x : Float)
  /-- A number beyond the numbers of 64 bits. -/
  | beyond

namespace Number

/-- The number of unsigned words. -/
def wordSize : Nat := 1 <<< 64

/-- The base of an integer and its digits. -/
def baseOf (t : Text) : Nat × Text :=
  match t with
  | 0x30 :: 0x78 :: ds => (16, ds)
  | 0x30 :: 0x6f :: ds => (8, ds)
  | 0x30 :: 0x62 :: ds => (2, ds)
  | 0x30 :: b :: ds => (8, b :: ds)
  | ds => (10, ds)

/-- An integer, unless it does not fit into 64 bits. -/
def ofInt (negative : Bool) (n : Nat) : Number :=
  if negative then (if n ≤ 1 <<< 63 then int (-n) else beyond)
  else if n < wordSize then int n else beyond

/-- A fraction, unless it is greater than every floating-point number. -/
def ofLiteral (l : Double.Literal) : Number := (l.toFloat?.map fraction).getD beyond

/-- A text without the given byte at its start. -/
def dropFirst (b : UInt8) (t : Text) : Text := if t.head? = some b then t.tail else t

/-- Whether a text starts like an integer of base 16, 8 or 2. -/
def isBased (t : Text) : Bool :=
  [utf8 "0x", utf8 "0o", utf8 "0b"].any (·.isPrefixOf t)

/-- The number that a plain scalar spells. -/
def read? (t : Text) : Option Number :=
  let points := t.count 0x2e
  if t.isEmpty || t.head? = some 0x5f || 1 < points then none
  else
    let negative := t.head? = some 0x2d
    let body := (dropFirst 0x2d (dropFirst 0x2b t)).filter (· != 0x5f)
    if points = 1 && !isBased body then
      (Double.Literal.read? (if negative then 0x2d :: body else body)).map ofLiteral
    else
      let (base, digits) := baseOf body
      (Numeral.value? base digits).map (ofInt negative)

end Number

end Yaml

end CallByValue
