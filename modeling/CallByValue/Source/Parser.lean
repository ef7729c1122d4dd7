import CallByValue.Source.Lexer
import CallByValue.Term

/-!
# The parser

Terms are written `x: body`, `\x y. body` or `λx y. body`, juxtaposition applies and associates to
the left, and `let x = M; y = N; in B` stands for `(x: (y: B) N) M`.  The body of an abstraction or
a `let` reaches as far to the right as it can, also where it is the last argument of an application.

A parser holds its source, the offset up to which it has read and the token that it has read last;
the next token is read when it is asked for (`Parser.next`).  The grammar is read by recursive
descent, one `Parser.Action` for each of its rules.  What starts with an identifier is told by the
token behind it: if that is no colon, the parser is put back (`Parser.colonAbs?`).  An action that
fails leaves the parser at the token that it refuses.

The rules call one another through `Parser.term`, whose number bounds the tokens that are still to be
read.
-/

namespace CallByValue

/-- What was expected where a source is refused. -/
inductive Expected where
  /-- The start of a term or of an argument. -/
  | term
  /-- The end of the source. -/
  | endOfTerm
  /-- A closing parenthesis. -/
  | rightParen
  /-- The end of a `let` value. -/
  | letSeparator
  /-- The first parameter of a lambda. -/
  | parameter
  /-- A further parameter of a lambda or the dot after them. -/
  | dot
  /-- The name of a `let` binding. -/
  | letName
  /-- The equals sign of a `let` binding. -/
  | equals
  deriving DecidableEq, Repr

/-- Why a source was refused: what was expected, and the token found instead. -/
structure SyntaxError where
  /-- What could have come next. -/
  expected : Expected
  /-- The token that came. -/
  found : Token
  deriving DecidableEq, Repr

namespace SyntaxError

/-- The offset of the offending token. -/
def pos (e : SyntaxError) : Nat := e.found.pos

/-- What is wrong, without the place. -/
def reason (e : SyntaxError) : Text :=
  let got := e.found.describe
  match e.expected with
  | .term => utf8 "unexpected " ++ got
  | .endOfTerm => utf8 "unexpected " ++ got ++ utf8 " after term"
  | .rightParen => utf8 "expected ')', got " ++ got
  | .letSeparator => utf8 "expected ';' or 'in', got " ++ got
  | .parameter => utf8 "expected identifier after lambda, got " ++ got
  | .dot => utf8 "expected '.' after lambda parameters, got " ++ got
  | .letName => utf8 "expected identifier in let binding, got " ++ got
  | .equals => utf8 "expected '=', got " ++ got

/-- The full message. -/
def message (e : SyntaxError) : Text :=
  utf8 "syntax error at offset " ++ Text.ofNat e.pos ++ utf8 ": " ++ e.reason

end SyntaxError

/-- A parser: a source and how far it has been read. -/
structure Parser where
  /-- The source. -/
  input : Text
  /-- The offset behind the token that was read last. -/
  pos : Nat
  /-- The token that was read last and is taken next. -/
  current : Token
  deriving DecidableEq, Repr

namespace Parser

/-- The parser with the next token of its source as the current one. -/
def next (p : Parser) : Parser :=
  let (token, place) := Lexer.next ⟨p.pos, p.input.drop p.pos⟩
  { p with pos := place.pos, current := token }

/-- A parser at the start of a source, with the first token read. -/
def ofText (s : Text) : Parser := next ⟨s, 0, .atEnd 0⟩

/-- What reads a part of a term: it moves the parser and gives the part, or refuses a token. -/
abbrev Action (α : Type) := EStateM SyntaxError Parser α

/-- Reads the next token. -/
def advance : Action Unit := modify next

/-- Refuses the current token. -/
def refuse {α : Type} (e : Expected) : Action α := do throw ⟨e, (← get).current⟩

/-- Takes the current token if it is of the kind `k`, and refuses it otherwise. -/
def take (k : Token.Kind) (e : Expected) : Action Text := do
  let token := (← get).current
  if token.kind = k then
    advance
    return token.text
  else refuse e

section Rules

variable (term : Action Term)

/-- `Atom ::= Ident | '(' Term ')'` -/
def atom : Action Term := do
  let token := (← get).current
  match token.kind with
  | .identifier =>
    advance
    return .var token.text
  | .leftParen =>
    advance
    let t ← term
    let _ ← take .rightParen .rightParen
    return t
  | _ => refuse .term

/-- `Ident ':' Term`, if a colon follows the current identifier.  Otherwise nothing is taken: the
offset and the current token are put back. -/
def colonAbs? : Action (Option Term) := do
  let saved ← get
  if saved.current.kind = .identifier then
    advance
    if (← get).current.kind = .colon then
      advance
      return some (.abs saved.current.text (← term))
    else
      modify fun p => { p with pos := saved.pos, current := saved.current }
      return none
  else return none

/-- What follows the function `f` of an application: `{ Atom } [ Lambda | Let | Ident ':' Term ]`, in
at most `n` rounds.  It ends before a token that ends terms. -/
def arguments : Nat → Term → Action Term
  | 0, _ => refuse .term
  | n + 1, f => do
    match (← get).current.kind with
    | .endOfInput | .rightParen | .semicolon | .inWord => return f
    | .lambda | .letWord => return .app f (← term)
    | _ =>
      match ← colonAbs? term with
      | some a => return .app f a
      | none => arguments n (.app f (← atom term))

/-- The identifiers up to the first other token, at most `n`. -/
def names : Nat → Action (List Name)
  | 0 => return []
  | n + 1 => do
    let token := (← get).current
    if token.kind = .identifier then
      advance
      return token.text :: (← names n)
    else return []

/-- `Lambda ::= ('\' | 'λ') Ident+ '.' Term` -/
def lambda (n : Nat) : Action Term := do
  advance
  let xs ← names n
  if xs.isEmpty then refuse .parameter
  else
    let _ ← take .dot .dot
    return xs.foldr .abs (← term)

/-- The bindings of a `let` up to the word `in`, at most `n`: `Ident '=' Term`, with a semicolon between
them and perhaps one behind the last. -/
def bindings : Nat → Action (List (Name × Term))
  | 0 => refuse .letName
  | n + 1 => do
    let x ← take .identifier .letName
    let _ ← take .equals .equals
    let v ← term
    match (← get).current.kind with
    | .semicolon =>
      advance
      if (← get).current.kind = .inWord then
        advance
        return [(x, v)]
      else return (x, v) :: (← bindings n)
    | .inWord =>
      advance
      return [(x, v)]
    | _ => refuse .letSeparator

/-- `Let ::= 'let' Bindings 'in' Term`, as abstractions that are applied to the values. -/
def letIn (n : Nat) : Action Term := do
  advance
  let bs ← bindings term n
  return bs.foldr (fun b body => .app (.abs b.1 body) b.2) (← term)

end Rules

/-- `Term ::= Let | Lambda | Ident ':' Term | App`, where fewer than `n` tokens are left. -/
def term : Nat → Action Term
  | 0 => refuse .term
  | n + 1 => do
    match (← get).current.kind with
    | .letWord => letIn (term n) n
    | .lambda => lambda (term n) n
    | _ =>
      match ← colonAbs? (term n) with
      | some t => return t
      | none => arguments (term n) n (← atom (term n))

/-- A term and the end of the source behind it. -/
def source (n : Nat) : Action Term := do
  let t ← term n
  if (← get).current.kind = .endOfInput then return t else refuse .endOfTerm

/-- Reads one term up to the end of the source, where fewer than `n` tokens are left.  After a failure the
parser stands at the refused token, after a success at the end. -/
def parseWithin (n : Nat) (p : Parser) : Except SyntaxError Term × Parser :=
  match (source n).run p with
  | .ok t q => (.ok t, q)
  | .error e q => (.error e, q)

/-- Reads one term up to the end of the source.  Every token takes a byte, so no more are left than the
source is long. -/
def parse (p : Parser) : Except SyntaxError Term × Parser := p.parseWithin (p.input.length + 1)

end Parser

/-- The term that a source spells. -/
def Term.parse (s : Text) : Except SyntaxError Term := (Parser.ofText s).parse.1

end CallByValue
