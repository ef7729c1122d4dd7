import CallByValue.Run.Basic
import CallByValue.Text.Quoted

/-!
# The log

What a run logs, and how a record is written: one line of `key=value` pairs, the level first unless
it is the ordinary one, then the message, the pairs of the logger and the pairs of the record.  A
value is quoted if it is empty or holds anything that would make the line ambiguous.
-/

namespace CallByValue

namespace Log

/-- The importance of a record. -/
inductive Level where
  /-- Detail. -/
  | debug
  /-- Ordinary; not shown in the line. -/
  | info
  /-- Trouble that is worked around. -/
  | warn
  deriving DecidableEq, Repr

/-- A record. -/
structure Record where
  /-- Its importance. -/
  level : Level
  /-- What happened. -/
  message : Text
  /-- Further pairs of a key and a value. -/
  pairs : List (Text × Text) := []
  deriving DecidableEq, Repr

/-- Whether a glyph keeps a value from being written bare. -/
def needsQuotes : Glyph → Bool
  | .stray _ => true
  | .char c =>
    if c.toNat < 0x80 then c.toNat ≤ 0x20 || c == '"' || c == '='
    else c.toNat == 0xfffd || isBlank c || !isPrintable c

/-- A value as it stands in a line. -/
def value (v : Text) : Text :=
  if v.isEmpty || (Glyph.all v).any needsQuotes then v.quoted else v

/-- A pair as it stands in a line. -/
def pair (p : Text × Text) : Text := value p.1 ++ utf8 "=" ++ value p.2

/-- The pair that shows the level, if it is shown. -/
def levelPairs : Level → List (Text × Text)
  | .debug => [(utf8 "level", utf8 "DEBUG")]
  | .info => []
  | .warn => [(utf8 "level", utf8 "WARN")]

end Log

/-- Where records are written. -/
structure Logger where
  /-- Whether anything below a warning is written. -/
  verbose : Bool
  /-- Pairs that every record gets. -/
  context : List (Text × Text) := []
  deriving DecidableEq, Repr

namespace Logger

/-- The line of a record; nothing if the record is not important enough. -/
def line (l : Logger) (r : Log.Record) : Text :=
  if l.verbose || r.level = .warn then
    let pairs := Log.levelPairs r.level ++ (utf8 "msg", r.message) :: l.context ++ r.pairs
    Text.join (utf8 " ") (pairs.map Log.pair) ++ utf8 "\n"
  else []

/-- The lines of records. -/
def lines (l : Logger) (rs : List Log.Record) : Text := rs.flatMap l.line

end Logger

/-- The record of an event after the first. -/
def Event.record (e : Event) : Log.Record where
  level := .debug
  message := utf8 "step"
  pairs := [(utf8 "n", Text.ofNat e.step), (utf8 "size", Text.ofNat e.size),
    (utf8 "depth", Text.ofNat e.depth)]

/-- What a run logs: the term it starts from, every step, and a normal form.  The time that a run
takes is not part of it and is written as `T`. -/
def Run.log (r : Run) : List Log.Record :=
  let start : List Log.Record := r.events.take 1 |>.map fun e =>
    { level := .debug, message := utf8 "evaluating", pairs := [(utf8 "term", e.term.toText)] }
  let finish : List Log.Record :=
    match r.ending with
    | .normal =>
      [{ level := .info, message := utf8 "normal form",
         pairs := [(utf8 "outcome", r.outcome.toText), (utf8 "steps", Text.ofNat r.last.step),
           (utf8 "elapsed", utf8 "T")] }]
    | _ => []
  start ++ (r.events.drop 1).map Event.record ++ finish

end CallByValue
