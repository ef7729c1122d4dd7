import CallByValue.Condition.Expr
import CallByValue.Double.Literal
import CallByValue.Text.Glyph

/-!
# Tokens of conditions

Words, numbers, strings, operators and brackets.  Numbers are decimal, hexadecimal, octal or binary
integers, or decimal fractions with an optional exponent; underscores between digits are ignored,
and a number is not followed directly by a letter.  An integer beyond 63 bits and a fraction beyond
the greatest floating-point number are no tokens.  White space and comments, up to the end of a line
or between `/*` and `*/`, may stand between tokens.
-/

namespace CallByValue

namespace Condition

open Numeral (isNumeral)

/-- A token of a condition. -/
inductive Token where
  | int (n : Int64)
  | float (x : Float)
  | str (s : Text)
  | nilWord
  | bool (b : Bool)
  | quantity (q : Quantity)
  | firstWord
  /-- The word `not`. -/
  | notWord
  /-- The sign `!`. -/
  | notSign
  | op (o : BinaryOp)
  | question
  | colon
  | comma
  | leftParen
  | rightParen
  | leftBracket
  | rightBracket

/-- Whether a token makes a part of an expression: an operand, an operator or a list. -/
def Token.isPart : Token → Bool
  | colon | comma | leftParen | rightParen | rightBracket => false
  | _ => true

/-! ### Numbers -/

/-- An integer that fits. -/
def intToken? (base : Nat) (t : Text) : Option Token :=
  let n := Numeral.value base t
  if (t.filterMap Numeral.digit?).isEmpty || 1 <<< 63 ≤ n then none else some (.int (Int64.ofNat n))

/-- Letters, digits, the underscore and the dollar sign. -/
def isNameByte (b : UInt8) : Bool := isWordByte b || b == 0x24

/-- The base of an integer by its second byte. -/
def baseOf? (b : UInt8) : Option Nat :=
  if b == 0x78 || b == 0x58 then some 16
  else if b == 0x6f || b == 0x4f then some 8
  else if b == 0x62 || b == 0x42 then some 2
  else none

/-- A token that no letter or digit follows. -/
def unlessJoined (tok : Option Token) (rest : Text) : Option (Token × Text) :=
  if (rest.head?).any isNameByte then none else tok.map (·, rest)

/-- A decimal number: digits, an optional fraction unless two points follow, an optional exponent. -/
def decimal? (s : Text) : Option (Token × Text) :=
  let whole := s.takeWhile (isNumeral 10)
  let rest := s.dropWhile (isNumeral 10)
  let pointed := rest.take 1 == utf8 "." && rest.take 2 != utf8 ".."
  let afterPoint := if pointed then rest.drop 1 else rest
  let fraction := if pointed then afterPoint.takeWhile (isNumeral 10) else []
  let rest := if pointed then afterPoint.dropWhile (isNumeral 10) else rest
  let scaled := (rest.head?).any fun b => b == 0x65 || b == 0x45
  if scaled then
    let rest := rest.drop 1
    let negative := rest.take 1 == utf8 "-"
    let rest := if negative || rest.take 1 == utf8 "+" then rest.drop 1 else rest
    let exponent := rest.takeWhile (isNumeral 10)
    let rest := rest.dropWhile (isNumeral 10)
    if (exponent.filterMap Numeral.digit?).isEmpty then none
    else unlessJoined (fractionToken whole fraction negative (Numeral.value 10 exponent)) rest
  else if pointed then unlessJoined (fractionToken whole fraction false 0) rest
  else unlessJoined (intToken? 10 whole) rest
where
  /-- The token of a fraction. -/
  fractionToken (whole fraction : Text) (negative : Bool) (exponent : Nat) : Option Token :=
    let digits := (whole ++ fraction).filterMap Numeral.digit?
    let e : Int := if negative then -exponent else exponent
    if digits.isEmpty then none
    else (Double.ofScaled? (Numeral.value 10 (whole ++ fraction)) 10
      (e - ((fraction.filterMap Numeral.digit?).length : Int))).map .float

/-- A number at the start of a text. -/
def number? (s : Text) : Option (Token × Text) :=
  match s with
  | 0x30 :: b :: rest =>
    match baseOf? b with
    | some base => unlessJoined (intToken? base (rest.takeWhile (isNumeral base)))
        (rest.dropWhile (isNumeral base))
    | none => decimal? s
  | _ => decimal? s

/-! ### Strings -/

/-- The byte that a letter stands for after a backslash. -/
def escaped? (quote b : UInt8) : Option UInt8 :=
  if b == quote || b == 0x5c then some b
  else if b == 0x61 then some 0x07
  else if b == 0x62 then some 0x08
  else if b == 0x66 then some 0x0c
  else if b == 0x6e then some 0x0a
  else if b == 0x72 then some 0x0d
  else if b == 0x74 then some 0x09
  else if b == 0x76 then some 0x0b
  else none

/-- The text up to the closing quote, on one line. -/
def string? (quote : UInt8) : Text → Option (Text × Text)
  | [] => none
  | 0x5c :: b :: rest => do
    let c ← escaped? quote b
    let (t, rest) ← string? quote rest
    return (c :: t, rest)
  | b :: rest =>
    if b == quote then some ([], rest)
    else if b == 0x5c || b == Text.newline then none
    else do
      let (t, rest) ← string? quote rest
      return (b :: t, rest)

/-! ### Words and operators -/

/-- The words that mean something. -/
def words : List (Text × Token) :=
  [(utf8 "nil", .nilWord), (utf8 "true", .bool true), (utf8 "false", .bool false),
    (utf8 "steps", .quantity .steps), (utf8 "size", .quantity .size),
    (utf8 "depth", .quantity .depth), (utf8 "first", .firstWord), (utf8 "not", .notWord),
    (utf8 "or", .op .or), (utf8 "and", .op .and), (utf8 "in", .op .elem)]

/-- The operators and brackets, the longer ones first. -/
def symbols : List (Text × Token) :=
  [(utf8 "||", .op .or), (utf8 "&&", .op .and), (utf8 "==", .op .eq), (utf8 "!=", .op .ne),
    (utf8 "<=", .op .le), (utf8 ">=", .op .ge), (utf8 "**", .op .pow), (utf8 "..", .op .range),
    (utf8 "<", .op .lt), (utf8 ">", .op .gt), (utf8 "+", .op .add), (utf8 "-", .op .sub),
    (utf8 "*", .op .mul), (utf8 "/", .op .div), (utf8 "%", .op .mod), (utf8 "^", .op .pow),
    (utf8 "!", .notSign), (utf8 "?", .question), (utf8 ":", .colon), (utf8 ",", .comma),
    (utf8 "(", .leftParen), (utf8 ")", .rightParen), (utf8 "[", .leftBracket),
    (utf8 "]", .rightBracket)]

/-- The first token of a text that starts with no white space, and the text after it.  A question mark
does not stand right before a point. -/
def lexeme? (s : Text) : Option (Token × Text) :=
  match s with
  | [] => none
  | b :: rest =>
    if isDigit b || (b == 0x2e && (rest.head?).any isDigit) then number? s
    else if b == 0x27 || b == 0x22 then (string? b rest).map fun (t, r) => (.str t, r)
    else if isNameByte b then
      (words.lookup (s.takeWhile isNameByte)).map (·, s.dropWhile isNameByte)
    else if b == 0x3f && rest.head? = some 0x2e then none
    else
      (symbols.find? fun p => p.1.isPrefixOf s).map fun p => (p.2, s.drop p.1.length)

/-- The text after the next `*/`. -/
def afterComment? : Text → Option Text
  | [] => none
  | 0x2a :: 0x2f :: s => some s
  | _ :: s => afterComment? s

/-- The text without the white space and the comments at its start; none if a comment is not closed. -/
def skip? : (fuel : Nat) → Text → Option Text
  | 0, s => some s
  | fuel + 1, s =>
    match s with
    | 0x2f :: 0x2f :: rest => skip? fuel ((rest.dropWhile (· != Text.newline)).drop 1)
    | 0x2f :: 0x2a :: rest => (afterComment? rest).bind (skip? fuel)
    | s =>
      match Glyph.next? s with
      | some (g, rest) => if g.isBlank then skip? fuel rest else some s
      | none => some s

/-- All tokens of a text, at most `fuel` of them. -/
def tokens? : (fuel : Nat) → Text → Option (List Token)
  | 0, _ => none
  | fuel + 1, s => do
    match ← skip? s.length s with
    | [] => some []
    | s =>
      let (t, rest) ← lexeme? s
      let ts ← tokens? fuel rest
      return t :: ts

end Condition

end CallByValue
