import CallByValue.Term

/-!
# Maps from names

What a traversal of a term keeps about the names around it: a value for some of them (`NameMap`), or how
many binders of each name it is under (`Tally`).  It changes the map where it enters a binder and puts it
back where it leaves the binder.
-/

namespace CallByValue

/-- Values for some names. -/
structure NameMap (α : Type) where
  /-- The names with their values, at most one for a name. -/
  entries : List (Name × α) := []
  deriving Repr

namespace NameMap

variable {α : Type}

/-- The value of `x`, if it has one. -/
def get? (m : NameMap α) (x : Name) : Option α := m.entries.lookup x

/-- The value of `x`, or `d` if it has none. -/
def getD (m : NameMap α) (x : Name) (d : α) : α := (m.get? x).getD d

/-- Takes the value of `x` away. -/
def erase (m : NameMap α) (x : Name) : NameMap α := ⟨m.entries.filter fun e => e.1 != x⟩

/-- Gives `x` the value `v`. -/
def set (m : NameMap α) (x : Name) (v : α) : NameMap α := ⟨(x, v) :: (m.erase x).entries⟩

/-- Gives `x` back what it had before: a value or none. -/
def restore (m : NameMap α) (x : Name) : Option α → NameMap α
  | some v => m.set x v
  | none => m.erase x

@[simp] theorem get?_empty (x : Name) : ({} : NameMap α).get? x = none := rfl

@[simp] theorem getD_empty (x : Name) (d : α) : ({} : NameMap α).getD x d = d := rfl

@[simp] theorem get?_erase (m : NameMap α) (x y : Name) :
    (m.erase x).get? y = if y = x then none else m.get? y := by
  obtain ⟨es⟩ := m
  simp only [get?, erase]
  induction es with
  | nil => simp
  | cons e es ih =>
    obtain ⟨z, v⟩ := e
    by_cases hz : z = x
    · rw [List.filter_cons_of_neg (by simp [hz]), ih, List.lookup_cons]
      by_cases hy : y = x
      · simp [hy]
      · have hb : (y == z) = false := by simpa [hz] using hy
        simp [hy, hb]
    · rw [List.filter_cons_of_pos (by simpa using hz), List.lookup_cons, List.lookup_cons, ih]
      by_cases hy : y = z
      · subst hy
        simp [hz]
      · have hb : (y == z) = false := by simpa using hy
        simp only [hb]

@[simp] theorem get?_set (m : NameMap α) (x y : Name) (v : α) :
    (m.set x v).get? y = if y = x then some v else m.get? y := by
  by_cases h : y = x
  · simp [get?, set, h]
  · have hb : (y == x) = false := by simpa using h
    have herase := m.get?_erase x y
    rw [if_neg h] at herase ⊢
    rw [← herase]
    simp only [get?, set, List.lookup_cons, hb]

@[simp] theorem get?_restore (m : NameMap α) (x y : Name) (o : Option α) :
    (m.restore x o).get? y = if y = x then o else m.get? y := by
  cases o <;> simp [restore]

@[simp] theorem getD_set (m : NameMap α) (x y : Name) (v d : α) :
    (m.set x v).getD y d = if y = x then v else m.getD y d := by
  rw [getD, get?_set]
  split <;> rfl

/-- Changing the value of `x` by `f` changes no other. -/
theorem getD_set_getD (m : NameMap α) (x y : Name) (f : α → α) (d : α) :
    (m.set x (f (m.getD x d))).getD y d = if y = x then f (m.getD y d) else m.getD y d := by
  rw [getD_set]
  split
  · next h => rw [h]
  · rfl

end NameMap

/-- How often each name is bound; a name without an entry is not bound. -/
abbrev Tally := NameMap Nat

namespace Tally

/-- The number of binders of a name. -/
def count (t : Tally) (x : Name) : Nat := t.getD x 0

/-- One binder of `x` more. -/
def enter (t : Tally) (x : Name) : Tally := t.set x (t.count x + 1)

/-- One binder of `x` less. -/
def leave (t : Tally) (x : Name) : Tally := t.set x (t.count x - 1)

@[simp] theorem count_enter (t : Tally) (x y : Name) :
    (t.enter x).count y = if y = x then t.count y + 1 else t.count y :=
  t.getD_set_getD x y (· + 1) 0

@[simp] theorem count_leave (t : Tally) (x y : Name) :
    (t.leave x).count y = if y = x then t.count y - 1 else t.count y :=
  t.getD_set_getD x y (· - 1) 0

theorem count_enter_singleton (t : Tally) (x y : Name) :
    (t.enter x).count y = t.count y + [x].count y := by
  rw [count_enter, List.count_singleton]
  by_cases h : y = x
  · simp [h]
  · simp [h, Ne.symm h]

theorem count_leave_singleton (t : Tally) (x y : Name) :
    (t.leave x).count y = t.count y - [x].count y := by
  rw [count_leave, List.count_singleton]
  by_cases h : y = x
  · simp [h]
  · simp [h, Ne.symm h]

end Tally

end CallByValue
