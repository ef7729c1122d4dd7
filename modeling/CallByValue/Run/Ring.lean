/-!
# Rings

A ring keeps the most recent of the elements recorded in it, as many as it has slots.  The slots are
filled in turn and then overwritten in turn, the oldest first.
-/

namespace CallByValue

/-- A ring of at least one slot. -/
structure Ring (α : Type) where
  /-- The slots. -/
  slots : Array (Option α)
  /-- The number of elements recorded since the ring was empty. -/
  count : Nat
  /-- There is a slot. -/
  size_pos : 0 < slots.size

namespace Ring

variable {α : Type}

/-- An empty ring; a capacity below one counts as one. -/
def empty (capacity : Int) : Ring α where
  slots := Array.replicate (max 1 capacity.toNat) none
  count := 0
  size_pos := by simp only [Array.size_replicate]; omega

/-- The number of slots. -/
def capacity (r : Ring α) : Nat := r.slots.size

/-- The ring without its elements. -/
def reset (r : Ring α) : Ring α where
  slots := Array.replicate r.capacity none
  count := 0
  size_pos := by simpa [capacity] using r.size_pos

/-- The ring with one more element. -/
def record (r : Ring α) (a : α) : Ring α where
  slots := r.slots.set (r.count % r.slots.size) (some a) (Nat.mod_lt _ r.size_pos)
  count := r.count + 1
  size_pos := by simpa using r.size_pos

/-- The elements kept, the oldest first. -/
def toList (r : Ring α) : List α :=
  let filled :=
    if r.count ≤ r.capacity then r.slots.toList.take r.count
    else
      let start := r.count % r.capacity
      r.slots.toList.drop start ++ r.slots.toList.take start
  filled.filterMap id

end Ring

end CallByValue
