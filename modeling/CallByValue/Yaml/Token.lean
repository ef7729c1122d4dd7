import CallByValue.Yaml.Node

/-!
# Tokens of YAML

A document is read as a sequence of scalars, brackets and marks, each with the place where it starts:
the structure of block style lies in the columns.
-/

namespace CallByValue

namespace Yaml

/-- A place in a document, counted from one. -/
structure Mark where
  /-- The line. -/
  line : Nat
  /-- The column. -/
  column : Nat
  deriving DecidableEq, Repr

/-- How a scalar is written. -/
inductive Style where
  /-- Without quotes; it may be a word or a number. -/
  | plain
  /-- Without quotes, with a line in it that starts with a dash; it is a text. -/
  | dashed
  /-- In quotes. -/
  | quoted
  /-- As a block of lines after a header. -/
  | block
  deriving DecidableEq, Repr

/-- The kinds of tokens. -/
inductive TokenKind where
  /-- A scalar with its text. -/
  | scalar (style : Style) (t : Text)
  /-- An opening brace. -/
  | mapStart
  /-- A closing brace. -/
  | mapEnd
  /-- An opening bracket. -/
  | listStart
  /-- A closing bracket. -/
  | listEnd
  /-- A comma between the entries of a flow collection. -/
  | comma
  /-- The colon after a key. -/
  | colon
  /-- The dash before an item of a list. -/
  | dash
  /-- The line that starts a document. -/
  | documentStart
  /-- The line that ends a document. -/
  | documentEnd
  /-- A comment. -/
  | comment
  deriving DecidableEq, Repr

/-- A token. -/
structure Token where
  /-- What it is. -/
  kind : TokenKind
  /-- Where it starts. -/
  mark : Mark
  /-- The characters that it was read from, with white space before them. -/
  source : List Char := []
  deriving DecidableEq, Repr

namespace Token

/-- Whether the token is a scalar. -/
def isScalar (t : Token) : Bool :=
  match t.kind with
  | .scalar .. => true
  | _ => false

/-- Whether the token is a scalar in quotes. -/
def isQuoted (t : Token) : Bool :=
  match t.kind with
  | .scalar .quoted _ => true
  | _ => false

/-- The text of a scalar. -/
def text (t : Token) : Text :=
  match t.kind with
  | .scalar _ s => s
  | _ => []

/-- What a scalar stands for. -/
def scalar? (t : Token) : Option Scalar :=
  match t.kind with
  | .scalar .plain s => some (.ofPlain s)
  | .scalar _ s => some (.text s)
  | _ => none

end Token

/-- The characters that end a line. -/
def isBreak (c : Char) : Bool := c == '\n' || c == '\r'

/-- The space and the tab. -/
def isSpace (c : Char) : Bool := c == ' ' || c == '\t'

/-- Whether a line that starts or ends a document stands at the start of some characters. -/
def startsWithMarker (cs : List Char) : Bool :=
  let marks (m : List Char) : Bool :=
    m.isPrefixOf cs && (cs.drop m.length).head?.all fun c => isSpace c || isBreak c
  marks ['-', '-', '-'] || marks ['.', '.', '.']

end Yaml

end CallByValue
