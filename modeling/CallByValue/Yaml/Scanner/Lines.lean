import CallByValue.Yaml.Scanner.Basic

/-!
# Blocks of lines

A block starts with a header, `|` or `>` with an indentation and a sign for the line ends at its end,
and goes on until a line that is not indented more than the last key or dash.  The first line with
text settles the column of the text; spaces beyond it belong to the text.
-/

namespace CallByValue

namespace Yaml

/-! ### Headers -/

/-- A list without the given element at its start. -/
def withoutHead (c : Char) (cs : List Char) : List Char := if cs.head? = some c then cs.tail else cs

/-- A list without the given element at its end. -/
def withoutLast (c : Char) (cs : List Char) : List Char :=
  if cs.getLast? = some c then cs.dropLast else cs

/-- The integer that characters spell. -/
def integer? (cs : List Char) : Option Int :=
  let (negative, ds) := match cs with
    | '-' :: ds => (true, ds)
    | '+' :: ds => (false, ds)
    | ds => (false, ds)
  (Text.toNat? (Text.ofChars ds)).map fun n => if negative then -(n : Int) else n

/-- The indentation that the options of a header ask for, which is at most nine and not a lone zero;
zero if they ask for none. -/
def headerWidth? (options : List Char) : Option Int :=
  let digits := withoutLast '+' (withoutLast '-' (withoutHead '+' (withoutHead '-' options)))
  if digits.isEmpty then some 0
  else if digits = ['0'] then none
  else (integer? digits).bind fun n => if 9 < n then none else some n

/-- The options of a header from the characters after it: without blanks at the end, and without a
comment unless they start with it. -/
def headerOptions (cs : List Char) : List Char :=
  let trim (p : Char → Bool) (cs : List Char) := (cs.reverse.dropWhile p).reverse
  let value := trim (· == ' ') cs
  let value := if value.head? = some '#' then value else value.takeWhile (· != '#')
  trim isSpace value

namespace Scanner

/-- Reads the header of a block; none if its options are wrong.  At the end of the document the last
character does not belong to the options. -/
def header? (style : BlockStyle) (s : Scanner) : Option Scanner := do
  let after := s.rest.tail
  let line := after.takeWhile fun c => !isBreak c
  let line := if line.length < after.length then line else line.dropLast
  let options := headerOptions line
  let width ← headerWidth? options
  let margin := if s.column = 1 then 1 else s.margin
  let sign (c : Char) := options.head? = some c || options.getLast? = some c
  let b : Block :=
    { style := style, header := some s.mark, strip := sign '-', keep := sign '+', width := width
      column := if 0 < width then margin + width.toNat else 0 }
  return { (((s.skip 1).move line.length).nextLine).reset with
            margin := margin, level := .inside, block := some b }

/-! ### Lines -/

/-- Ends a block at the end of the document or before a line that starts or ends a document. -/
def endBlock (b : Block) (s : Scanner) : Scanner :=
  let t := Text.ofChars s.gathered.reverse
  (s.emit ⟨.scalar s.textStyle t, b.header.getD s.mark, s.source.reverse⟩).clear

/-- Ends a block before a line that does not belong to it.  There is none with its header or text in
the first column. -/
def leaveBlock? (b : Block) (s : Scanner) : Option Scanner :=
  match s.takeText with
  | (some t, s) =>
    if t.mark.column = 1 then none
    else some { s.emit { t with mark := b.header.getD t.mark } with block := none }
  | (none, s) =>
    match b.header with
    | none => some { s with block := none }
    | some m =>
      if m.column = 1 then none
      else some { s.emit ⟨.scalar .block [], m, []⟩ with block := none }

/-- Reads a space at the start of a line: beyond the column of the text it belongs to the text. -/
def indentLine (b : Block) (s : Scanner) : Scanner :=
  if b.column = 0 || s.column < b.column then s
  else
    let b := if b.style = .literal then b else { b with fresh := false }
    { s.push ' ' with block := some b }

/-- Folds the line end before the first character of a line's text: it becomes a space between lines
that start in the same column, and of two line ends after a blank line one is dropped. -/
def foldLine (b : Block) (s : Scanner) : Scanner :=
  if b.style = .literal || !b.fresh then s
  else
    let s := { s with block := some { b with fresh := false } }
    match s.chars with
    | '\n' :: cs =>
      if b.lineColumn = b.lastColumn then { s with chars := ' ' :: cs, body := ' ' :: cs }
      else if b.lastColumn = 0 && cs.head? = some '\n' then { s with chars := cs, body := cs }
      else s
    | _ => s

/-- Reads the last character of the document as part of a block. -/
def lastOfBlock? (b : Block) (c : Char) (s : Scanner) : Option Scanner :=
  let s := if s.fresh && c == ' ' then s.indentLine b else s.gather c
  let b := ((s.block.getD b).startLine s.column)
  if b.isIndented then some ({ s with block := some b }.endBlock b |>.move 1) else none

/-- Reads a line end as part of a block. -/
def breakBlock (b : Block) (c : Char) (s : Scanner) : Scanner :=
  let b := { b with blanks := if b.column = 0 then s.column - 1 else b.blanks
                    lastColumn := b.lineColumn, fresh := true, lineColumn := 0 }
  let s := { (s.gather c).nextLine with block := some b }
  if startsWithMarker s.rest then s.endBlock b else s

/-- Reads a character of a line's text.  None if a blank line before the first one was indented more,
or if it is not indented as the header asks for. -/
def textOfBlock? (b : Block) (c : Char) (s : Scanner) : Option Scanner :=
  if b.column = 0 && s.column < b.blanks then none
  else
    let b := b.startLine s.column
    if b.isIndented then
      let margin := if 0 < b.column then b.column - 1 else s.margin
      some ((({ s with margin := margin, block := some b }.foldLine b).gatherLine c).move 1)
    else none

/-- Reads a character as part of a block. -/
def blockChar? (b : Block) (c : Char) (s : Scanner) : Option Scanner :=
  let s := s.note c
  if s.atEnd then s.lastOfBlock? b c
  else if isBreak c then some (s.breakBlock b c)
  else if s.fresh && c == ' ' then some ((s.indentLine b).move 1)
  else if c == '\t' && b.isMargin s.column then if s.fresh then none else s.textOfBlock? b c
  else if c == '\t' then some ((s.gatherLine c).move 1)
  else s.textOfBlock? b c

end Scanner

end Yaml

end CallByValue
