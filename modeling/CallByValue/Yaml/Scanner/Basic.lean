import CallByValue.Text.Glyph
import CallByValue.Yaml.Token

/-!
# Scanning YAML

A scanner reads a document character by character.  It gathers the characters of a plain scalar, or of
a block of lines, until something ends it; which it is depends on the column of the first character of
a line, compared with the column of the last key or dash.

Gathered characters are kept in reverse.  The characters up to the last one that is no blank are the
text; blanks after it join the text only if something follows them.
-/

namespace CallByValue

namespace Yaml

/-- How the first character of a line stands to the last key or dash. -/
inductive Level where
  /-- There was no key or dash. -/
  | start
  /-- To the right of it. -/
  | deeper
  /-- Not to the right of it. -/
  | outer
  /-- The first character has been read. -/
  | inside
  deriving DecidableEq, Repr

/-- What becomes of the line ends of a block. -/
inductive BlockStyle where
  /-- They stay. -/
  | literal
  /-- They become spaces between lines of the same indentation. -/
  | folded
  /-- The same in a plain scalar that goes on with a line that starts with a dash. -/
  | dashed
  deriving DecidableEq, Repr

/-- A block of lines that is being read. -/
structure Block where
  /-- How its lines are joined. -/
  style : BlockStyle
  /-- Where its header stands; a plain scalar has none. -/
  header : Option Mark := none
  /-- Whether all line ends at its end are dropped. -/
  strip : Bool := false
  /-- Whether all line ends at its end are kept. -/
  keep : Bool := false
  /-- The indentation that the header asks for; zero if it asks for none. -/
  width : Int := 0
  /-- The column of its text; zero if it is not yet known. -/
  column : Nat := 0
  /-- The column where the text of the line before starts; zero if it is blank. -/
  lastColumn : Nat := 0
  /-- The column where the text of the line starts; zero as long as it is blank. -/
  lineColumn : Nat := 0
  /-- The number of spaces of the last blank line before the text. -/
  blanks : Nat := 0
  /-- Whether a line end has just been read. -/
  fresh : Bool := false
  deriving DecidableEq, Repr

namespace Block

/-- The block after the first character of a line's text, which stands in the given column. -/
def startLine (b : Block) (column : Nat) : Block :=
  { b with column := if b.column = 0 then column else b.column
           lineColumn := if b.lineColumn = 0 then column else b.lineColumn }

/-- Whether a line is indented as the header asks for. -/
def isIndented (b : Block) : Bool := b.width = 0 || b.column ≤ b.lineColumn

/-- Whether a column belongs to the indentation. -/
def isMargin (b : Block) (column : Nat) : Bool :=
  if b.column = 0 then column = 1 else column < b.column

/-- The text of a block, in reverse, as its header has the line ends at its end. -/
def finish (b : Block) (rev : List Char) : List Char :=
  let body := rev.dropWhile (· == '\n')
  let rev :=
    if b.strip then body.dropWhile (· == ' ')
    else if b.keep then rev
    else if body.length + 1 < rev.length then '\n' :: body
    else rev
  let rev := if rev = ['\n'] then [] else rev
  if b.keep && rev.isEmpty then ['\n'] else rev

end Block

/-- A scanner. -/
structure Scanner where
  /-- The characters to read. -/
  rest : List Char
  /-- The character read last. -/
  before : Option Char := none
  /-- The line. -/
  line : Nat := 1
  /-- The column. -/
  column : Nat := 1
  /-- The column of the last key or dash. -/
  margin : Nat := 0
  /-- The number of spaces at the start of the line. -/
  spaces : Nat := 0
  /-- Whether only spaces have been read of the line. -/
  fresh : Bool := true
  /-- How the line stands to the last key or dash. -/
  level : Level := .start
  /-- Where a scalar of several lines started. -/
  saved : Option Mark := none
  /-- The number of open brackets. -/
  lists : Int := 0
  /-- The number of open braces. -/
  maps : Nat := 0
  /-- The gathered characters, in reverse. -/
  chars : List Char := []
  /-- The gathered characters up to the last one that is no blank, in reverse. -/
  body : List Char := []
  /-- All characters since the last token, in reverse. -/
  source : List Char := []
  /-- The block that is being read. -/
  block : Option Block := none
  /-- The tokens read, in reverse. -/
  tokens : List Token := []

namespace Scanner

/-! ### Moving on -/

/-- The place of the next character. -/
def mark (s : Scanner) : Mark := ⟨s.line, s.column⟩

/-- Leaves characters behind without counting columns. -/
def skip (n : Nat) (s : Scanner) : Scanner :=
  { s with rest := s.rest.drop n, before := (s.rest.take n).getLast?.or s.before }

/-- Leaves characters of a line behind. -/
def move (n : Nat) (s : Scanner) : Scanner := { s.skip n with column := s.column + n }

/-- Leaves the end of a line behind. -/
def nextLine (s : Scanner) : Scanner :=
  { s.skip 1 with line := s.line + 1, column := 1, spaces := 0, fresh := true }

/-- Whether the next character is the last one. -/
def atEnd (s : Scanner) : Bool := s.rest.tail.isEmpty

/-- Whether a flow collection is open. -/
def inFlow (s : Scanner) : Bool := 0 < s.lists || 0 < s.maps

/-! ### Gathering -/

/-- Notes a character as read since the last token. -/
def note (c : Char) (s : Scanner) : Scanner := { s with source := c :: s.source }

/-- Adds a character to the text. -/
def push (c : Char) (s : Scanner) : Scanner :=
  { s with chars := c :: s.chars, body := c :: s.chars }

/-- Adds a blank that is part of the text only if something follows. -/
def pushBlank (c : Char) (s : Scanner) : Scanner := { s with chars := c :: s.chars }

/-- Gathers a character; a blank at the start is left out. -/
def gather (c : Char) (s : Scanner) : Scanner :=
  if isSpace c then (if s.chars.isEmpty then s else s.pushBlank c) else s.push c

/-- Gathers a character of a block, where a tab is no blank. -/
def gatherLine (c : Char) (s : Scanner) : Scanner :=
  if c == ' ' then (if s.chars.isEmpty then s else s.pushBlank c) else s.push c

/-- The scanner with nothing gathered. -/
def reset (s : Scanner) : Scanner := { s with chars := [], body := [], source := [] }

/-- The scanner with nothing gathered and no block. -/
def clear (s : Scanner) : Scanner := { s.reset with block := none }

/-- The text gathered so far, in reverse. -/
def gathered (s : Scanner) : List Char :=
  match s.block with
  | some b => b.finish s.body
  | none => s.body

/-- Whether there is any text. -/
def hasText (s : Scanner) : Bool := !s.gathered.isEmpty

/-! ### Tokens -/

/-- Adds a token. -/
def emit (t : Token) (s : Scanner) : Scanner := { s with tokens := t :: s.tokens }

/-- The number of line ends in some characters. -/
def countBreaks : List Char → Nat
  | [] => 0
  | '\r' :: '\n' :: cs => countBreaks cs + 1
  | c :: cs => (if isBreak c then 1 else 0) + countBreaks cs

/-- The number of bytes before the first occurrence of some characters in others. -/
def offsetOf? (pattern : List Char) : List Char → Option Nat
  | [] => if pattern.isEmpty then some 0 else none
  | c :: cs =>
    if pattern.isPrefixOf (c :: cs) then some 0
    else (offsetOf? pattern cs).map (· + c.utf8Size)

/-- Where the gathered text starts. -/
def textMark (s : Scanner) : Mark :=
  match s.saved, s.block with
  | some m, _ => m
  | none, none => ⟨s.line, s.column - s.chars.length⟩
  | none, some _ =>
    let cs := s.chars.reverse
    ⟨s.line - countBreaks cs, ((offsetOf? cs s.source.reverse).map (· + 1)).getD 0⟩

/-- The style of the gathered text. -/
def textStyle (s : Scanner) : Style :=
  match s.block with
  | none => .plain
  | some b => if b.header.isSome then .block else .dashed

/-- Takes the gathered text as a token, if there is any. -/
def takeText (s : Scanner) : Option Token × Scanner :=
  let t := s.gathered
  let s' := { s with saved := none }
  if t.isEmpty then (none, { s' with chars := [] })
  else
    (some ⟨.scalar s.textStyle (Text.ofChars t.reverse), s.textMark, s.source.reverse⟩, s'.reset)

/-- Ends the gathered text. -/
def flush (s : Scanner) : Scanner :=
  match s.takeText with
  | (some t, s) => s.emit t
  | (none, s) => s

/-- Ends the gathered text and adds a token of one character. -/
def emitSign (kind : TokenKind) (s : Scanner) : Scanner :=
  let s := s.flush
  ((s.emit ⟨kind, s.mark, []⟩).move 1).clear

end Scanner

end Yaml

end CallByValue
