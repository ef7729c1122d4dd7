import CallByValue.Text

/-!
# Timestamps

The scalars that look like a date, a date with a time, or an hour and a minute.
-/

namespace CallByValue

namespace Yaml

namespace Timestamp

/-- The value of a decimal digit. -/
def digit (b : UInt8) : Nat := b.toNat - 0x30

/-- One or two digits at the start of a text, exactly two if `fixed`, as a number within bounds. -/
def number? (fixed : Bool) (lo hi : Nat) (t : Text) : Option (Nat × Text) :=
  let (n, rest) := match t with
    | a :: b :: rest =>
      if isDigit a && isDigit b then (some (10 * digit a + digit b), rest)
      else if isDigit a && !fixed then (some (digit a), b :: rest)
      else (none, t)
    | [a] => if isDigit a && !fixed then (some (digit a), []) else (none, t)
    | [] => (none, t)
  n.bind fun n => if lo ≤ n && n ≤ hi then some (n, rest) else none

/-- The text after a byte. -/
def after? (b : UInt8) (t : Text) : Option Text :=
  if t.head? = some b then some t.tail else none

/-- Whether February has 29 days. -/
def isLeap (year : Nat) : Bool := year % 4 = 0 && (year % 100 != 0 || year % 400 = 0)

/-- The number of days of a month. -/
def daysIn (year month : Nat) : Nat :=
  if month = 2 then (if isLeap year then 29 else 28)
  else if [4, 6, 9, 11].contains month then 30
  else 31

/-- The text after a date. -/
def date? (t : Text) : Option Text := do
  let year ← Text.toNat? (t.take 4)
  if t.length < 4 then none
  let t ← after? 0x2d (t.drop 4)
  let (month, t) ← number? true 1 12 t
  let t ← after? 0x2d t
  let (_, t) ← number? true 1 (daysIn year month) t
  return t

/-- The text after a fraction of a second, if there is one. -/
def afterFraction (t : Text) : Text :=
  match t with
  | b :: d :: rest => if (b == 0x2e || b == 0x2c) && isDigit d then rest.dropWhile isDigit else t
  | _ => t

/-- The text after a time of day with seconds. -/
def time? (t : Text) : Option Text := do
  let (_, t) ← number? false 0 23 t
  let t ← after? 0x3a t
  let (_, t) ← number? true 0 59 t
  let t ← after? 0x3a t
  let (_, t) ← number? true 0 59 t
  return afterFraction t

/-- The text after a time zone. -/
def zone? (t : Text) : Option Text :=
  match t with
  | [] => none
  | b :: t =>
    if b == 0x5a then some t
    else if b == 0x2b || b == 0x2d then do
      let (_, t) ← number? true 0 24 t
      let t ← after? 0x3a t
      let (_, t) ← number? true 0 60 t
      return t
    else none

/-- The text after an hour and a minute. -/
def hourMinute? (t : Text) : Option Text := do
  let (_, t) ← number? false 0 23 t
  let t ← after? 0x3a t
  let (_, t) ← number? false 0 59 t
  return t

/-- The text after a date and a time that a space divides. -/
def spaced? (t : Text) : Option Text := do
  let t ← after? 0x20 (← date? t)
  time? (t.dropWhile (· == 0x20))

/-- The text after a date and a time in a zone. -/
def zoned? (t : Text) : Option Text := do
  let t ← after? 0x54 (← date? t)
  zone? (← time? t)

end Timestamp

/-- Whether a text is a timestamp. -/
def isTimestamp (t : Text) : Bool :=
  [Timestamp.zoned? t, Timestamp.spaced? t, Timestamp.date? t, Timestamp.hourMinute? t].contains
    (some [])

end Yaml

end CallByValue
