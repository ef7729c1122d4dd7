import CallByValue.Yaml.Scanner.Lines
import CallByValue.Yaml.Scanner.Quoted

/-!
# The tokens of a document

Every character either belongs to the block that is being read, is a sign, starts a quoted scalar, a
block or a comment, or is gathered for a plain scalar.  Most signs count as such only where no plain
scalar has been started.

Anchors, aliases, tags, directives and keys marked by `?` are refused.
-/

namespace CallByValue

namespace Yaml

namespace Scanner

/-- Takes notice of the next character's place in its line. -/
def settle (c : Char) (s : Scanner) : Scanner :=
  if !s.fresh then { s with level := .inside }
  else if isBreak c || c == '\t' then s
  else if c == ' ' then { s with spaces := s.spaces + 1 }
  else
    { s with fresh := false
             level := if s.margin = 0 then s.level else if s.margin < s.column then .deeper else .outer }

/-- Gathers a character for a plain scalar. -/
def plain (c : Char) (s : Scanner) : Scanner := ((s.gather c).note c).move 1

/-- The number of characters equal to the given one at the start of a list. -/
def runLength (c : Char) (cs : List Char) : Nat := (cs.takeWhile (· == c)).length

/-- Whether exactly three of the given character stand at the start of an unindented line. -/
def isTriple (c : Char) (s : Scanner) : Bool :=
  s.spaces = 0 && s.column = 1 && runLength c s.rest = 3

/-- Ends the gathered text and adds the mark of a document, three characters long. -/
def documentMark (kind : TokenKind) (s : Scanner) : Scanner :=
  let s := s.flush
  ((s.emit ⟨kind, s.mark, []⟩).move 3).clear

/-- Reads a line end.  In a plain scalar it becomes a space, and a line end more for every blank line
after it; blanks before it are dropped. -/
def breakLine? (s : Scanner) (c : Char) : Option Scanner :=
  let s := if s.chars.isEmpty || s.saved.isSome then s
    else { s with saved := some ⟨s.line, s.column - s.gathered.length⟩ }
  let s := if s.source.head?.any isSpace then
      { s with source := s.source.dropWhile isSpace, chars := s.body }
    else s
  let (c, s) := if c == '\r' && s.rest.tail.head? = some '\n' then ('\n', (s.note '\r').skip 1) else (c, s)
  let s := if s.atEnd then s.flush else s
  if s.hasText && s.fresh then
    match s.chars with
    | [] => none
    | d :: cs =>
      let s := { s with chars := '\n' :: if d == ' ' then cs else d :: cs }
      some (s.note c).nextLine
  else some ((s.gather ' ').note c).nextLine

/-- Reads a comment, which stands at the start or after a blank; none where there is none. -/
def comment? (s : Scanner) : Option Scanner :=
  if s.hasText && !s.before.any (fun c => isSpace c || isBreak c) then none
  else
    let s := s.flush
    let n := (s.rest.tail.takeWhile fun c => !isBreak c).length
    let t : Token := ⟨.comment, s.mark, []⟩
    some (((s.skip 1).emit t).move n).nextLine.clear

/-- Whether a colon ends a key: a blank, a line end or the end of the document follows it, or it
stands in braces, not before a slash and not right after another key. -/
def isKeyEnd (s : Scanner) : Bool :=
  let next := s.rest.tail.head?
  if 0 < s.maps then
    next != some '/' && !s.tokens.head?.any (·.kind == .colon)
  else next.all fun c => isSpace c || isBreak c

/-- Whether a tab, or a space and a tab, have been read since the last token. -/
def startsWithTab (s : Scanner) : Bool :=
  let source := s.source.reverse
  (if source.head? = some ' ' then source.tail else source).head? = some '\t'

/-- Reads the colon of a key; none if a tab stands before the key. -/
def key? (s : Scanner) : Option Scanner :=
  if s.startsWithTab && s.chars.getLast? != some '\t' then none
  else
    let s := match s.takeText with
      | (some t, s) => { s.emit t with margin := t.mark.column }
      | (none, s) =>
        match s.tokens.head?.filter Token.isQuoted with
        | some t => { s with margin := t.mark.column }
        | none => s
    some ((s.emit ⟨.colon, s.mark, []⟩).move 1).clear

/-- Reads a dash; none if a tab stands before the dash of an item. -/
def dash? (s : Scanner) : Option Scanner :=
  let next := s.rest.tail.head?
  if s.isTriple '-' && (s.rest.drop 3).head?.all (fun c => isSpace c || isBreak c) then
    some { s.documentMark .documentStart with margin := 0, spaces := 0 }
  else if s.hasText then
    if s.level = .deeper then
      let b : Block := { style := .dashed, strip := true }
      some ({ s with block := some (b.startLine s.column) }.plain '-')
    else some (s.plain '-')
  else if next.all fun c => isSpace c || isBreak c || c == '\x00' then
    if s.startsWithTab then none else some { s.emitSign .dash with margin := s.column }
  else some (s.plain '-')

/-- Reads a tab, which does not count as a column to the right of the last key or dash; none at the
start of another line. -/
def tab? (s : Scanner) : Option Scanner :=
  if s.margin < s.column || (s.hasText && s.margin = 0) then
    some ({ s with spaces := s.spaces + 1 }.note '\t' |>.skip 1)
  else if !s.inFlow && s.fresh then none
  else some (s.plain '\t')

/-- Reads a character that belongs to no block. -/
def char? (c : Char) (s : Scanner) : Option Scanner :=
  match c with
  | '\x7b' =>
    some (if s.hasText && !s.inFlow then s.plain c
      else { s.emitSign .mapStart with maps := s.maps + 1 })
  | '\x7d' =>
    some (if 0 < s.maps then { s.emitSign .mapEnd with maps := s.maps - 1 } else s.plain c)
  | '[' =>
    some (if s.hasText && !s.inFlow then s.plain c
      else { s.emitSign .listStart with lists := s.lists + 1 })
  | ']' =>
    some (if s.hasText && s.lists ≤ 0 then s.plain c
      else { s.emitSign .listEnd with lists := s.lists - 1 })
  | ',' => some (if s.inFlow then s.emitSign .comma else s.plain c)
  | ':' => if s.isKeyEnd then s.key? else some (s.plain c)
  | '-' => s.dash?
  | '.' => some (if s.isTriple '.' then s.documentMark .documentEnd else s.plain c)
  | '|' => if s.hasText then some (s.plain c) else s.header? .literal
  | '>' => if s.hasText then some (s.plain c) else s.header? .folded
  | '#' => some (s.comment?.getD (s.plain c))
  | '\'' | '"' => if s.hasText then some (s.plain c) else s.quoted? c
  | '\n' | '\r' => s.breakLine? c
  | ' ' => some (if s.fresh then (s.note c).move 1 else s.plain c)
  | '\t' => s.tab?
  | '!' | '&' | '*' | '@' | '\x60' => if s.hasText then some (s.plain c) else none
  | '%' => if s.hasText || s.spaces ≠ 0 then some (s.plain c) else none
  | '?' =>
    if s.hasText || !s.rest.tail.head?.any isSpace then some (s.plain c) else none
  | c => some (s.plain c)

/-- Reads a character; none if the document is malformed. -/
def step? (c : Char) (s : Scanner) : Option Scanner :=
  let s := s.settle c
  match s.block, s.level with
  | some b, .outer => (s.leaveBlock? b).bind (char? c)
  | some b, _ => s.blockChar? b c
  | none, .outer => s.flush.char? c
  | none, _ => s.char? c

/-- Reads a document to its end; every character takes at most one step. -/
def run? : (fuel : Nat) → Scanner → Option Scanner
  | 0, s => some s
  | fuel + 1, s =>
    match s.rest with
    | [] => some s
    | c :: _ => (s.step? c).bind (run? fuel)

/-- The end of a document, which ends what is being read. -/
def finish (s : Scanner) : Scanner :=
  match s.block.filter (·.header.isSome) with
  | some b => s.endBlock b
  | none => s.flush

end Scanner

/-- The tokens of a document, without its comments. -/
def tokens? (cs : List Char) : Option (List Token) := do
  let s ← Scanner.run? cs.length { rest := cs }
  return s.finish.tokens.reverse.filter (·.kind != .comment)

end Yaml

end CallByValue
