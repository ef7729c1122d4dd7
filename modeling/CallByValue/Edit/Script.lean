import CallByValue.Edit.Bisect
import CallByValue.Edit.Merge

/-!
# Finding a script

What two texts have in common at their ends is kept.  Of the rest, one text may contain the other,
or the two may share a long piece in the middle; otherwise they are cut at the middle of a shortest
script and both halves are treated in the same way.
-/

namespace CallByValue

namespace Edit

/-- Two texts cut around a common piece. -/
structure Halves where
  /-- The old text before the piece. -/
  oldBefore : List Char
  /-- The old text after the piece. -/
  oldAfter : List Char
  /-- The new text before the piece. -/
  newBefore : List Char
  /-- The new text after the piece. -/
  newAfter : List Char
  /-- The common piece. -/
  common : List Char

namespace Halves

/-- The cut with the texts exchanged. -/
def swap (h : Halves) : Halves := ⟨h.newBefore, h.newAfter, h.oldBefore, h.oldAfter, h.common⟩

/-- The cut around the longest common piece that holds the quarter of `long` from `i` on, if it is at
least half as long as `long`; `long` takes the place of the old text. -/
def around? (long short : List Char) (i : Nat) : Option Halves :=
  let seed := (long.drop i).take (long.length / 4)
  let extend (j : Nat) : Nat × Nat × Nat :=
    (j, suffixLength (long.take i) (short.take j), prefixLength (long.drop i) (short.drop j))
  let longest (best c : Nat × Nat × Nat) : Nat × Nat × Nat :=
    if best.2.1 + best.2.2 < c.2.1 + c.2.2 then c else best
  let (j, back, ahead) := ((occurrences seed 0 short).map extend).foldl longest (0, 0, 0)
  if (back + ahead) * 2 < long.length then none
  else some
    { oldBefore := long.take (i - back)
      oldAfter := long.drop (i + ahead)
      newBefore := short.take (j - back)
      newAfter := short.drop (j + ahead)
      common := (short.take (j + ahead)).drop (j - back) }

/-- The longer common piece of two cuts, the second if they are equal. -/
def longer : Option Halves → Option Halves → Option Halves
  | some a, some b => if b.common.length < a.common.length then some a else some b
  | a, b => a.or b

/-- A cut around a common piece at least half as long as the longer text. -/
def find? (old new : List Char) : Option Halves :=
  let swapped := old.length ≤ new.length
  let (long, short) := if swapped then (new, old) else (old, new)
  if long.length < 4 ∨ short.length * 2 < long.length then none
  else
    let cut := longer (around? long short ((long.length + 3) / 4))
      (around? long short ((long.length + 1) / 2))
    if swapped then cut.map swap else cut

end Halves

/-- A script for texts of which one contains the other. -/
def containment? (old new : List Char) : Option (List Edit) :=
  let grows := old.length ≤ new.length
  let (long, short) := if grows then (new, old) else (old, new)
  let change := if grows then insert else delete
  (indexOf? short long).map fun i =>
    [change (long.take i), keep short, change (long.drop (i + short.length))]

/-- An edit that keeps characters, if there are any. -/
def keepSome (cs : List Char) : List Edit := if cs = [] then [] else [keep cs]

/-- A script for two texts. -/
def scriptWith : (fuel : Nat) → (old new : List Char) → List Edit
  | 0, old, new => [delete old, insert new]
  | fuel + 1, old, new =>
    if old = new then keepSome old
    else
      let n := prefixLength old new
      let start := old.take n
      let old := old.drop n
      let new := new.drop n
      let m := suffixLength old new
      let finish := takeLast m old
      let old := dropLast m old
      let new := dropLast m new
      merge (keepSome start ++ between fuel old new ++ keepSome finish)
where
  /-- A script for two different texts that start and end differently. -/
  between (fuel : Nat) (old new : List Char) : List Edit :=
    if old = [] then [insert new]
    else if new = [] then [delete old]
    else match containment? old new with
      | some es => es
      | none =>
        if old.length = 1 ∨ new.length = 1 then [delete old, insert new]
        else match Halves.find? old new with
          | some h =>
            scriptWith fuel h.oldBefore h.newBefore ++ [keep h.common] ++
              scriptWith fuel h.oldAfter h.newAfter
          | none =>
            match middle? old new with
            | some (x, y) =>
              scriptWith fuel (old.take x) (new.take y) ++ scriptWith fuel (old.drop x) (new.drop y)
            | none => [delete old, insert new]

/-- A script that turns one string of characters into another.  Each cut makes the texts shorter, so
their lengths bound the number of cuts. -/
def script (old new : List Char) : List Edit := scriptWith (old.length + new.length + 1) old new

end Edit

end CallByValue
