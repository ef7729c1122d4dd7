import CallByValue.Edit.Basic

/-!
# The middle of a shortest script

A shortest edit script is a path through the grid of the two texts.  Paths are grown from both
corners at once, one edit at a time, and on each diagonal only the furthest point is kept.  Where a
path from the front meets one from the back, a shortest script can be cut in two.
-/

namespace CallByValue

namespace Edit

namespace Bisect

/-- The paths grown from one corner. -/
structure Front where
  /-- The furthest point on each diagonal, as an offset in the old text; -1 where there is none. -/
  reach : Array Int
  /-- How many diagonals at the low end have run out of the grid. -/
  low : Int := 0
  /-- How many diagonals at the high end have run out of the grid. -/
  high : Int := 0

/-- The furthest point on the diagonal with the given index. -/
def Front.get (f : Front) (i : Int) : Int := if i < 0 then -1 else (f.reach[i.toNat]?).getD (-1)

/-- The problem: both texts, read from one corner, and their lengths. -/
structure Grid where
  /-- The old text. -/
  old : Array Char
  /-- The new text. -/
  new : Array Char

/-- The number of diagonals on either side of the middle one. -/
def Grid.reach (g : Grid) : Int := ((g.old.size + g.new.size + 1) / 2 : Nat)

/-- The difference of the lengths, the diagonal of the far corner. -/
def Grid.delta (g : Grid) : Int := (g.old.size : Int) - g.new.size

/-- Follows a diagonal while the texts agree; gives the offset in the old text. -/
def Grid.slide (g : Grid) : (fuel : Nat) → (x y : Int) → Int
  | 0, x, _ => x
  | fuel + 1, x, y =>
    if 0 ≤ x ∧ 0 ≤ y ∧ x < g.old.size ∧ y < g.new.size ∧ g.old[x.toNat]? = g.new[y.toNat]? then
      g.slide fuel (x + 1) (y + 1)
    else x

/-- One more edit on diagonal `k` for paths of `d` edits: the point reached. -/
def Grid.advance (g : Grid) (f : Front) (d k : Int) : Int :=
  let i := g.reach + k
  let x :=
    if k = -d ∨ (k ≠ d ∧ f.get (i - 1) < f.get (i + 1)) then f.get (i + 1) else f.get (i - 1) + 1
  g.slide (g.old.size + 1) x (x - k)

/-- Grows the paths of one corner to `d` edits, diagonal by diagonal from `k` on.  If `meets` is
true and a path comes to or beyond one of the other corner, gives the point of meeting, seen from
this corner, together with the diagonal. -/
def Grid.grow (g : Grid) (other : Front) (meets : Bool) (d : Int) :
    (fuel : Nat) → (k : Int) → Front → Front × Option (Int × Int)
  | 0, _, f => (f, none)
  | fuel + 1, k, f =>
    if d - f.high < k then (f, none)
    else
      let x := g.advance f d k
      let f := { f with reach := f.reach.setIfInBounds (g.reach + k).toNat x }
      if g.old.size < x then g.grow other meets d fuel (k + 2) { f with high := f.high + 2 }
      else if g.new.size < x - k then g.grow other meets d fuel (k + 2) { f with low := f.low + 2 }
      else
        let back := other.get (g.reach + g.delta - k)
        if meets ∧ back ≠ -1 ∧ (g.old.size : Int) - back ≤ x then (f, some (x, k))
        else g.grow other meets d fuel (k + 2) f

/-- Grows both fronts in turn, from paths of `d` edits on, until they meet. -/
def Grid.search (front back : Grid) :
    (fuel : Nat) → (d : Int) → (f b : Front) → Option (Int × Int)
  | 0, _, _, _ => none
  | fuel + 1, d, f, b =>
    let odd := front.delta % 2 ≠ 0
    match front.grow b odd d (d.toNat + 1) (-d + f.low) f with
    | (_, some (x, k)) => some (x, x - k)
    | (f, none) =>
      match back.grow f (!odd) d (d.toNat + 1) (-d + b.low) b with
      | (_, some (_, k)) =>
        let x := f.get (front.reach + front.delta - k)
        some (x, x - (front.delta - k))
      | (b, none) => front.search back fuel (d + 1) f b

end Bisect

/-- A point at which a shortest script can be cut: how much of the old and of the new text comes
before it. -/
def middle? (old new : List Char) : Option (Nat × Nat) :=
  let front : Bisect.Grid := ⟨old.toArray, new.toArray⟩
  let back : Bisect.Grid := ⟨old.reverse.toArray, new.reverse.toArray⟩
  let start : Bisect.Front :=
    ⟨(Array.replicate (2 * front.reach).toNat (-1 : Int)).setIfInBounds (front.reach + 1).toNat 0,
      0, 0⟩
  (front.search back front.reach.toNat 0 start start).map fun (x, y) => (x.toNat, y.toNat)

end Edit

end CallByValue
