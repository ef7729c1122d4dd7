import CallByValue.Edit.Script

/-!
# Differences of texts

The changes from one text to another are a script of edits, character by character, that is made easier
to read: a kept piece that is no longer than the changes on both sides of it is deleted and inserted
again, an edit between two kept pieces slides to where words or lines begin and end, and what a deletion
and the insertion after it overlap in is kept.

Sliding counts glyphs but cuts bytes.
-/

namespace CallByValue

namespace Edit

/-! ### Short kept pieces -/

/-- The lengths of the changes seen since a kept piece. -/
structure Changes where
  /-- The glyphs inserted. -/
  inserted : Nat := 0
  /-- The glyphs deleted. -/
  deleted : Nat := 0

/-- The length of the longer change. -/
def Changes.extent (c : Changes) : Nat := max c.inserted c.deleted

/-- The changes with one more edit. -/
def Changes.add (c : Changes) (e : Edit) : Changes :=
  if e.kind = .insert then { c with inserted := c.inserted + width e.text }
  else { c with deleted := c.deleted + width e.text }

/-- A search for kept pieces that are shorter than the changes around them. -/
structure Sweep where
  /-- The script. -/
  script : List Edit
  /-- The place of the next edit to look at. -/
  place : Nat := 0
  /-- The places of the kept pieces seen, the latest first. -/
  kept : List Nat := []
  /-- The text of the latest kept piece. -/
  latest : Text := []
  /-- The changes before the latest kept piece. -/
  before : Changes := {}
  /-- The changes after it. -/
  after : Changes := {}
  /-- Whether a piece was given up. -/
  changed : Bool := false

/-- The search after a change: the latest kept piece is given up if it is short, and the search goes
back to the kept piece two before it. -/
def Sweep.settle (s : Sweep) : Sweep :=
  let n := width s.latest
  match s.kept with
  | p :: kept =>
    if 0 < n ∧ n ≤ s.before.extent ∧ n ≤ s.after.extent then
      let kept := kept.drop 1
      { script := s.script.take p ++ ⟨.delete, s.latest⟩ ::
          ((s.script.drop p).take 1).map (fun e => ⟨.insert, e.text⟩) ++ s.script.drop (p + 1)
        place := match kept with
          | [] => 0
          | q :: _ => q + 1
        kept := kept
        changed := true }
    else { s with place := s.place + 1 }
  | [] => { s with place := s.place + 1 }

/-- Goes through the script; each piece given up is one kept piece less, so the search ends. -/
def Sweep.run : (fuel : Nat) → Sweep → Sweep
  | 0, s => s
  | fuel + 1, s =>
    match s.script[s.place]? with
    | none => s
    | some e =>
      if e.kind = .keep then
        Sweep.run fuel { s with
          kept := s.place :: s.kept
          latest := e.text
          before := s.after
          after := {}
          place := s.place + 1 }
      else Sweep.run fuel ({ s with after := s.after.add e }).settle

/-- Gives up short kept pieces. -/
def giveUpShort (es : List Edit) : List Edit :=
  let n := 2 * es.length + 2
  let s := Sweep.run (n * n) { script := es }
  if s.changed then merge s.script else s.script

/-! ### Sliding edits -/

/-- What matters of a byte for where an edit may well begin or end. -/
inductive Texture where
  /-- A letter or a digit. -/
  | alphanumeric
  /-- Anything that is neither alphanumeric nor white space. -/
  | other
  /-- White space within a line. -/
  | space
  /-- The end of a line. -/
  | lineBreak
  deriving DecidableEq, Repr

/-- The texture of a byte. -/
def Texture.of (b : UInt8) : Texture :=
  if b == 0x0a || b == 0x0d then .lineBreak
  else if b == 0x09 || b == 0x0c || b == 0x20 then .space
  else if isWordByte b && b != 0x5f then .alphanumeric
  else .other

/-- Whether a texture is white space. -/
def Texture.isSpace : Texture → Bool
  | .space | .lineBreak => true
  | _ => false

/-- Whether a text ends with an empty line. -/
def endsBlank (t : Text) : Bool :=
  [0x0a, 0x0a].isSuffixOf t || [0x0a, 0x0d, 0x0a].isSuffixOf t

/-- How well two texts are divided where the one ends and the other begins. -/
def score (one two : Text) : Nat :=
  match one.getLast?, two.head? with
  | some a, some b =>
    let l := Texture.of a
    let r := Texture.of b
    if (l == .lineBreak && endsBlank one) || (r == .lineBreak && endsBlank two) then 5
    else if l == .lineBreak || r == .lineBreak then 4
    else if l == .other && r.isSpace then 3
    else if l.isSpace || r.isSpace then 2
    else if l == .other || r == .other then 1
    else 0
  | _, _ => 6

/-- An edit between two kept pieces. -/
structure Slot where
  /-- The kept text before the edit. -/
  left : Text
  /-- The text of the edit. -/
  edit : Text
  /-- The kept text after the edit. -/
  right : Text
  deriving DecidableEq, Repr

namespace Slot

/-- How well the edit is divided from the kept pieces. -/
def worth (s : Slot) : Nat := score s.left s.edit + score s.edit s.right

/-- The edit as far to the left as the text repeats. -/
def leftmost (s : Slot) : Slot :=
  let n := suffixLength (characters s.left) (characters s.edit)
  if n = 0 then s
  else
    let moved := takeLast n s.edit
    ⟨dropLast n s.left, moved ++ dropLast n s.edit, moved ++ s.right⟩

/-- The edit one glyph further to the right, if the text repeats. -/
def slide? (s : Slot) : Option Slot :=
  match Glyph.next? s.edit with
  | none => none
  | some (g, rest) =>
    if s.right ≠ [] ∧ g.bytes.isPrefixOf s.right then
      some ⟨s.left ++ g.bytes, rest ++ g.bytes, s.right.drop g.bytes.length⟩
    else none

/-- The best of the places further to the right, and the best so far; of equally good places the
last. -/
def best : (fuel : Nat) → (found s : Slot) → Slot
  | 0, found, _ => found
  | fuel + 1, found, s =>
    match s.slide? with
    | none => found
    | some t => best fuel (if found.worth ≤ t.worth then t else found) t

/-- The best place for the edit. -/
def tidy (s : Slot) : Slot :=
  let l := s.leftmost
  best (l.right.length + 1) l l

end Slot

/-- Slides every edit between two kept pieces to its best place; a kept piece that gets empty
disappears.  `done` is the part before the edit in question, in reverse. -/
def slideEdits : (fuel : Nat) → (done : List Edit) → List Edit → List Edit
  | 0, done, es => done.reverse ++ es
  | fuel + 1, prev :: before, e :: next :: es =>
    if prev.kind = .keep ∧ next.kind = .keep then
      let s := Slot.tidy ⟨prev.text, e.text, next.text⟩
      if prev.text ≠ s.left then
        let before := if s.left = [] then before else ⟨.keep, s.left⟩ :: before
        let e : Edit := ⟨e.kind, s.edit⟩
        if s.right = [] then slideEdits fuel before (e :: es)
        else slideEdits fuel (e :: before) (⟨.keep, s.right⟩ :: es)
      else slideEdits fuel (e :: prev :: before) (next :: es)
    else slideEdits fuel (e :: prev :: before) (next :: es)
  | fuel + 1, [], e :: next :: es => slideEdits fuel [e] (next :: es)
  | _ + 1, done, es => done.reverse ++ es

/-! ### Overlaps -/

/-- The length of the longest text that `one` ends and `two` begins with. -/
def overlap (one two : Text) : Nat :=
  let n := min one.length two.length
  let one := takeLast n one
  let two := two.take n
  if one = two then n else search one two (n + 1) 0 1
where
  /-- Looks for overlaps of at least `length` bytes. -/
  search (one two : Text) : (fuel best length : Nat) → Nat
    | 0, best, _ => best
    | fuel + 1, best, length =>
      match indexOf? (takeLast length one) two with
      | none => best
      | some i =>
        let length := length + i
        if i = 0 ∨ takeLast length one = two.take length then
          search one two fuel length (length + 1)
        else search one two fuel best length

/-- Keeps what a deletion and the insertion after it overlap in, if it is at least half of one of
them. -/
def keepOverlaps (done : List Edit) : List Edit → List Edit
  | [] => done.reverse
  | e :: es =>
    match done with
    | ⟨.delete, old⟩ :: before =>
      if e.kind = .insert then
        let new := e.text
        let n := overlap old new
        let m := overlap new old
        let long (k : Nat) : Bool := width old ≤ 2 * k || width new ≤ 2 * k
        let here : List Edit :=
          if m ≤ n then
            if long n then
              [⟨.insert, new.drop n⟩, ⟨.keep, new.take n⟩, ⟨.delete, dropLast n old⟩]
            else [e, ⟨.delete, old⟩]
          else if long m then
            [⟨.delete, old.drop m⟩, ⟨.keep, old.take m⟩, ⟨.insert, dropLast m new⟩]
          else [e, ⟨.delete, old⟩]
        match es with
        | [] => (here ++ before).reverse
        | next :: es => keepOverlaps (next :: here ++ before) es
      else keepOverlaps (e :: done) es
    | done => keepOverlaps (e :: done) es

/-- A script that is easy to read. -/
def tidy (es : List Edit) : List Edit :=
  let es := giveUpShort es
  keepOverlaps [] (slideEdits (2 * es.length + 1) [] es)

end Edit

/-- The changes from one text to another: in the palette's colours, or with deletions written
`[-like this-]` and insertions in braces with plus signs. -/
def Text.diff (old new : Text) (palette : Option Palette) : Text :=
  (Edit.tidy (Edit.script (Edit.characters old) (Edit.characters new))).flatMap
    (Edit.render palette)

end CallByValue
