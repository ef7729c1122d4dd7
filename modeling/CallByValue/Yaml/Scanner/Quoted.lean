import CallByValue.Yaml.Scanner.Basic

/-!
# Quoted scalars

A line end in quotes becomes a space, and further ones stay; blanks around it are dropped.  In single
quotes a quote is written twice.  In double quotes a backslash starts an escape sequence.
-/

namespace CallByValue

namespace Yaml

/-- A quoted scalar that is being read. -/
structure Quotation where
  /-- The characters to read. -/
  rest : List Char
  /-- The text so far, in reverse. -/
  text : List Char := []
  /-- The characters read, in reverse. -/
  source : List Char
  /-- The line. -/
  line : Nat
  /-- The column. -/
  column : Nat
  /-- The column of the last key or dash. -/
  margin : Nat
  /-- Whether the line is blank so far and not the first. -/
  folding : Bool := false
  /-- Whether a line end has just been read. -/
  atStart : Bool := false
  /-- Whether a line end has been read. -/
  broken : Bool := false
  /-- The number of characters after the scalar that are lost, one for each tab in it. -/
  lost : Nat := 0

namespace Quotation

/-- Counts the character that is about to be read, which no line end has counted already. -/
def step (c : Char) (q : Quotation) : Quotation :=
  { q with column := if q.atStart then q.column else q.column + 1
           atStart := false
           source := c :: q.source }

/-- Reads a line end; none if a line that starts or ends a document follows. -/
def breakLine? (rest : List Char) (q : Quotation) : Option Quotation :=
  if startsWithMarker rest then none
  else some { q with
    rest := rest
    text := (if q.folding then '\n' else ' ') :: q.text.dropWhile (· == ' ')
    folding := true, atStart := true, broken := true
    line := q.line + 1, column := 1 }

/-- Reads a blank at the start of a line; a tab must stand to the right of the last key or dash. -/
def dropBlank? (c : Char) (rest : List Char) (q : Quotation) : Option Quotation :=
  if c == '\t' && q.column ≤ q.margin then none else some { q with rest := rest }

/-- Adds a character to the text. -/
def add (c : Char) (rest : List Char) (q : Quotation) : Quotation :=
  { q with rest := rest, text := c :: q.text, folding := false }

/-- Leaves the closing quote behind, and what is lost after it. -/
def close (rest : List Char) (q : Quotation) : Quotation :=
  { q with rest := rest.drop q.lost, column := q.column + 1 }

/-- Reads a scalar in single quotes, after the first. -/
def single? : (fuel : Nat) → Quotation → Option Quotation
  | 0, _ => none
  | fuel + 1, q =>
    match q.rest with
    | [] => none
    | c :: rest =>
      let q := q.step c
      if isBreak c then (q.breakLine? rest).bind (single? fuel)
      else if q.folding && isSpace c then (q.dropBlank? c rest).bind (single? fuel)
      else if c != '\'' then single? fuel (q.add c rest)
      else
        match rest with
        | '\'' :: rest =>
          single? fuel { q with rest := rest, text := c :: q.text, source := c :: q.source
                                column := q.column + 1 }
        | rest => some (q.close rest)

/-! ### Escape sequences -/

/-- The characters that letters stand for after a backslash. -/
def escapes : List (Char × Char) :=
  [('0', '\x00'), ('a', '\x07'), ('b', '\x08'), ('t', '\t'), ('n', '\n'), ('v', '\x0b'),
    ('f', '\x0c'), ('r', '\r'), ('e', '\x1b'), ('"', '"'), ('/', '/'), ('\\', '\\'),
    ('N', '\x85'), ('_', '\xa0'), ('L', '\u2028'), ('P', '\u2029'), ('\t', '\t')]

/-- The number of digits after a letter that starts a code. -/
def codeWidth? (c : Char) : Option Nat :=
  if c == 'x' then some 2 else if c == 'u' then some 4 else if c == 'U' then some 8 else none

/-- The value of a character as a digit: a letter up to `f`, or else its distance from `0`. -/
def digitValue (c : Char) : Int :=
  if 'A' ≤ c && c ≤ 'F' then c.toNat - 'A'.toNat + 10
  else if 'a' ≤ c && c ≤ 'f' then c.toNat - 'a'.toNat + 10
  else (c.toNat : Int) - '0'.toNat

/-- The number that digits spell in base 16. -/
def codeOf (cs : List Char) : Int := cs.foldl (fun n c => 16 * n + digitValue c) 0

/-- The character with a code, taken modulo 2³²; a code of no character has the replacement
character. -/
def charOf (code : Int) : Char :=
  let n := (code % 0x100000000).toNat
  if n.isValidChar then Char.ofNat n else Char.ofNat 0xfffd

/-- The character of a code and the number of characters that spell it after the letter.  Two codes
`\\u` of surrogates are one character. -/
def coded? (letter : Char) (width : Nat) (rest : List Char) : Option (Char × Nat) :=
  let code := codeOf (rest.take width)
  if letter == 'u' && 0xd800 ≤ code && code ≤ 0xdbff then
    let low := codeOf ((rest.drop 6).take 4)
    if (rest.drop 10).isEmpty || (rest.drop 4).take 2 != ['\\', 'u'] || low < 0xdc00 || 0xdfff < low
    then none
    else some (charOf ((code - 0xd800) * 0x400 + (low - 0xdc00) + 0x10000), 10)
  else some (charOf code, width)

/-- Reads an escape sequence after its backslash. -/
def escape? (rest : List Char) (q : Quotation) : Option Quotation :=
  let q := { q with folding := false }
  match rest with
  | [] => some (q.add '\\' [])
  | c :: tail =>
    match escapes.lookup c, codeWidth? c with
    | some e, _ =>
      some { q.add e tail with column := q.column + 1, source := c :: q.source }
    | none, some width =>
      if (tail.drop width).isEmpty then
        some { q.add c tail with column := q.column + 1, source := c :: q.source }
      else do
        let (e, n) ← coded? c width tail
        some { q.add e (tail.drop n) with
                column := q.column + n + 1, source := (c :: tail.take n).reverse ++ q.source }
    | none, none =>
      if c == ' ' then some { q with rest := rest }
      else if isBreak c then
        some { q with rest := tail, source := c :: q.source, folding := true, atStart := true
                      broken := true, line := q.line + 1, column := 1 }
      else none

/-- Reads a tab: at the end of a line it is dropped with the blanks after it.  Another tab is part of
the text, and unless the closing quote follows it a character after the scalar is lost. -/
def tab (rest : List Char) (q : Quotation) : Quotation :=
  let after := rest.dropWhile isSpace
  if after.head?.all isBreak then
    { q with rest := after, column := q.column + (rest.length - after.length) }
  else
    let q := { q with rest := rest, text := '\t' :: q.text }
    if rest.head? = some '"' then q else { q with column := q.column + 1, lost := q.lost + 1 }

/-- Reads a scalar in double quotes, after the first. -/
def double? : (fuel : Nat) → Quotation → Option Quotation
  | 0, _ => none
  | fuel + 1, q =>
    match q.rest with
    | [] => none
    | c :: rest =>
      let q := q.step c
      if isBreak c then (q.breakLine? rest).bind (double? fuel)
      else if q.folding && isSpace c then (q.dropBlank? c rest).bind (double? fuel)
      else if c == '\\' then (q.escape? rest).bind (double? fuel)
      else if c == '\t' then double? fuel (q.tab rest)
      else if c != '"' then double? fuel (q.add c rest)
      else some (q.close rest)

end Quotation

namespace Scanner

/-- Reads a quoted scalar; none if it is not closed or has a wrong escape sequence. -/
def quoted? (quote : Char) (s : Scanner) : Option Scanner := do
  let q : Quotation :=
    { rest := s.rest.tail, source := quote :: s.source, line := s.line, column := s.column
      margin := s.margin }
  let q ← if quote == '"' then q.double? s.rest.length else q.single? s.rest.length
  let s' := s.skip (s.rest.length - q.rest.length)
  let t : Token := ⟨.scalar .quoted (Text.ofChars q.text.reverse), s.mark, q.source.reverse⟩
  return ({ s' with line := q.line, column := q.column
                    spaces := if q.broken then 0 else s.spaces
                    fresh := q.broken || s.fresh }.emit t).clear

end Scanner

end Yaml

end CallByValue
