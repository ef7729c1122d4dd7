import CallByValue.Text.Quoted

/-!
# Tokens

The eleven kinds of token that a source is made of, each token with its spelling and the offset at
which it starts, and how a token is described in a message.
-/

namespace CallByValue

namespace Token

/-- What a token is. -/
inductive Kind where
  /-- The end of the source. -/
  | endOfInput
  /-- A name. -/
  | identifier
  /-- `:` -/
  | colon
  /-- `=` -/
  | equals
  /-- `;` -/
  | semicolon
  /-- `(` -/
  | leftParen
  /-- `)` -/
  | rightParen
  /-- The word `let`. -/
  | letWord
  /-- The word `in`. -/
  | inWord
  /-- A backslash or a small lambda. -/
  | lambda
  /-- `.` -/
  | dot
  deriving DecidableEq, Repr

namespace Kind

/-- All kinds, numbered by their place in the list. -/
def all : List Kind :=
  [endOfInput, identifier, colon, equals, semicolon, leftParen, rightParen, letWord, inWord, lambda,
    dot]

/-- How a message calls a kind. -/
def describe : Kind → Text
  | endOfInput => utf8 "end of input"
  | identifier => utf8 "identifier"
  | colon => utf8 "':'"
  | equals => utf8 "'='"
  | semicolon => utf8 "';'"
  | leftParen => utf8 "'('"
  | rightParen => utf8 "')'"
  | letWord => utf8 "'let'"
  | inWord => utf8 "'in'"
  | lambda => utf8 "lambda"
  | dot => utf8 "'.'"

/-- How a message calls the kind with a given number, also where no kind has it. -/
def describeNumber (n : Nat) : Text :=
  match all[n]? with
  | some k => k.describe
  | none => utf8 "TokenType(" ++ Text.ofNat n ++ utf8 ")"

end Kind

end Token

/-- A token: its kind, its spelling and the offset at which it starts. -/
structure Token where
  /-- What the token is. -/
  kind : Token.Kind
  /-- The bytes that spell it; none at the end of the source. -/
  text : Text
  /-- The offset of its first byte. -/
  pos : Nat
  deriving DecidableEq, Repr

namespace Token

/-- How a message calls a token: an identifier is quoted, any other token has its kind's name. -/
def describe (t : Token) : Text :=
  match t.kind with
  | .identifier => utf8 "identifier " ++ t.text.quoted
  | k => k.describe

/-- The token that stands for the end of a source of the given length. -/
def atEnd (length : Nat) : Token := ⟨.endOfInput, [], length⟩

end Token

end CallByValue
