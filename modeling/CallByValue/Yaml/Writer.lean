import CallByValue.Text.Quoted
import CallByValue.Yaml.Number
import CallByValue.Yaml.Timestamp

/-!
# Writing scalars

A text is written plain if it would be read back as itself, as a block of lines if it has several, and
quoted otherwise.
-/

namespace CallByValue

namespace Yaml

/-- The words that stand for something other than a text. -/
def reservedWords : List Text :=
  ["null", "Null", "NULL", "~", "true", "True", "TRUE", "false", "False", "FALSE",
    "y", "Y", "yes", "Yes", "YES", "n", "N", "no", "No", "NO",
    "on", "On", "ON", "off", "Off", "OFF"].map utf8

/-- The bytes that a plain scalar is not written with at its start. -/
def quotedStarts : Text := utf8 "*&[\x7b\x7d],!|>%'\"@ \x60"

/-- Whether a text holds a byte that makes it quoted: `#`, a backslash, or a colon or dash before a
space. -/
def hasMark : Text → Bool
  | [] => false
  | b :: t =>
    b == 0x23 || b == 0x5c || ((b == 0x3a || b == 0x2d) && t.head? = some 0x20) || hasMark t

/-- Whether a text is written in quotes. -/
def needsQuotes (t : Text) : Bool :=
  t.isEmpty || t == utf8 "-" || reservedWords.contains t || (Number.read? t).isSome ||
    t.head?.any quotedStarts.contains || t.getLast?.any (utf8 ": ").contains ||
    isTimestamp t || hasMark t

/-- The bytes that divide the lines of a text: as all its lines end, or as most of them do. -/
def lineBreak (t : Text) : Text :=
  let newlines := t.count 0x0a
  let returns := t.count 0x0d
  let both := (t.zip t.tail).count (0x0d, 0x0a)
  if newlines = both && returns = both then utf8 "\r\n"
  else if newlines < returns then utf8 "\r"
  else utf8 "\n"

/-- A text cut at every occurrence of a separator, where `fuel` is at least its length. -/
def cut (sep : Text) : (fuel : Nat) → (cur : Text) → Text → List Text
  | 0, cur, t => [cur.reverse ++ t]
  | _, cur, [] => [cur.reverse]
  | fuel + 1, cur, b :: t =>
    if sep.isPrefixOf (b :: t) then cur.reverse :: cut sep fuel [] ((b :: t).drop sep.length)
    else cut sep fuel (b :: cur) t

/-- A text without the given end. -/
def dropEnd (suffix t : Text) : Text :=
  if suffix.isSuffixOf t then t.take (t.length - suffix.length) else t

/-- The header of a block by the line ends at its end. -/
def blockHeader (sep t : Text) : Text :=
  if (sep ++ sep).isSuffixOf t then utf8 "|+"
  else if sep.isSuffixOf t then utf8 "|"
  else utf8 "|-"

/-- The indentation of the lines of a block. -/
def blockIndent : Text := utf8 "  "

/-- A text as a block of lines; the last line is not indented if it is blank. -/
def writeBlock (t : Text) : Text :=
  let sep := lineBreak t
  let lines := (cut sep t.length [] t).map (blockIndent ++ ·)
  blockHeader sep t ++ sep ++
    dropEnd blockIndent (dropEnd (sep ++ blockIndent) (Text.join sep lines))

/-- A text as a scalar. -/
def writeScalar (t : Text) : Text :=
  if needsQuotes t then t.quoted
  else if t.contains 0x0a || t.contains 0x0d then writeBlock t
  else t

/-- A text with its lines after the first indented, apart from empty ones. -/
def indentRest (t : Text) : Text :=
  match cut (utf8 "\n") t.length [] t with
  | [] => []
  | l :: ls =>
    Text.join (utf8 "\n") (l :: ls.map fun l => if l.isEmpty then l else blockIndent ++ l)

end Yaml

end CallByValue
