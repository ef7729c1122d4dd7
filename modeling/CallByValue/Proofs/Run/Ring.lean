import CallByValue.Run.Ring
import Mathlib.Data.Int.ModEq
import Mathlib.Data.List.DropRight
import Mathlib.Data.List.Rotate

/-!
# What a ring keeps

A ring has the `i`-th element recorded in it in slot `i` modulo its capacity, as long as no later one
takes the slot (`Ring.Holds`).  Recording keeps this, so read from the oldest on, a ring gives the last
elements recorded, as many as it has slots (`Ring.Holds.toList`).
-/

namespace CallByValue

namespace Ring

variable {α : Type} {r : Ring α} {as : List α}

@[simp] theorem capacity_empty (n : Int) : (empty n : Ring α).capacity = max 1 n.toNat := by
  simp [empty, capacity]

@[simp] theorem capacity_reset (r : Ring α) : r.reset.capacity = r.capacity := by
  simp [reset, capacity]

@[simp] theorem capacity_record (r : Ring α) (a : α) : (r.record a).capacity = r.capacity := by
  simp [record, capacity]

/-- The elements `as` have been recorded since the ring was empty, and the slots hold the last of
them. -/
structure Holds (r : Ring α) (as : List α) : Prop where
  /-- They are counted. -/
  count : r.count = as.length
  /-- Each has its slot, unless as many have followed as there are slots. -/
  slot : ∀ i (hi : i < as.length), as.length ≤ i + r.capacity →
    r.slots[i % r.capacity]? = some (some as[i])

theorem holds_empty (n : Int) : (empty n : Ring α).Holds [] := ⟨rfl, by simp⟩

theorem holds_reset (r : Ring α) : r.reset.Holds [] := ⟨rfl, by simp⟩

/-- Fewer than `c` numbers apart, two numbers differ modulo `c`. -/
theorem mod_ne_of_lt {c i n : Nat} (hlt : i < n) (hnear : n < i + c) : n % c ≠ i % c := by
  intro heq
  have hdvd := (Nat.modEq_iff_dvd' (Nat.le_of_lt hlt)).1 heq.symm
  have := Nat.le_of_dvd (by omega) hdvd
  omega

theorem Holds.record (h : r.Holds as) (a : α) : (r.record a).Holds (as ++ [a]) where
  count := by simp [Ring.record, h.count]
  slot := by
    intro i hi hlast
    rw [capacity_record] at hlast ⊢
    simp only [List.length_append, List.length_singleton] at hi hlast
    simp only [Ring.record, h.count]
    rcases Nat.lt_or_ge i as.length with hlt | hge
    · have hslot := h.slot i hlt (by omega)
      have hne : as.length % r.slots.size ≠ i % r.capacity :=
        mod_ne_of_lt (c := r.capacity) hlt (by omega)
      rw [Array.getElem?_set_ne _ hne, hslot, List.getElem_append_left hlt]
    · obtain rfl : i = as.length := by omega
      rw [capacity, Array.getElem?_set_self]
      simp

theorem Holds.foldl_record (h : r.Holds as) (bs : List α) :
    (bs.foldl Ring.record r).Holds (as ++ bs) ∧ (bs.foldl Ring.record r).capacity = r.capacity := by
  induction bs generalizing r as with
  | nil => simpa using h
  | cons b bs ih =>
    obtain ⟨hholds, hcap⟩ := ih (h.record b)
    rw [List.append_assoc, List.singleton_append] at hholds
    exact ⟨hholds, hcap.trans (capacity_record r b)⟩

/-- The slots from the oldest element on. -/
theorem Holds.filled (h : r.Holds as) :
    (if r.count ≤ r.capacity then r.slots.toList.take r.count
      else r.slots.toList.drop (r.count % r.capacity) ++ r.slots.toList.take (r.count % r.capacity)) =
    (as.rtake r.capacity).map some := by
  have hsize : r.slots.toList.length = r.capacity := by simp [capacity]
  rw [h.count]
  split
  · next hle =>
    refine List.ext_getElem? fun j => ?_
    rw [List.rtake, Nat.sub_eq_zero_of_le hle, List.drop_zero]
    rcases Nat.lt_or_ge j as.length with hj | hj
    · have hslot := h.slot j hj (by omega)
      rw [Nat.mod_eq_of_lt (by omega)] at hslot
      simp [hj, hslot]
    · simp [hj]
  · next hgt =>
    -- the slots, turned so that the one to be overwritten next comes first
    have hrotate := List.rotate_eq_drop_append_take_mod (l := r.slots.toList) (n := as.length)
    rw [hsize] at hrotate
    rw [← hrotate]
    refine List.ext_getElem? fun j => ?_
    rcases Nat.lt_or_ge j r.capacity with hj | hj
    · have hslot := h.slot (as.length - r.capacity + j) (by omega) (by omega)
      have hmod : (j + as.length) % r.capacity = (as.length - r.capacity + j) % r.capacity := by
        rw [← Nat.add_mod_right (as.length - r.capacity + j)]
        congr 1
        omega
      rw [List.getElem?_rotate (by omega), hsize, hmod, Array.getElem?_toList, hslot]
      simp [List.rtake]
    · rw [List.getElem?_eq_none (by rw [List.length_rotate]; omega), List.getElem?_eq_none]
      rw [List.length_map, List.rtake, List.length_drop]
      omega

theorem Holds.toList (h : r.Holds as) : r.toList = as.rtake r.capacity := by
  rw [Ring.toList]
  dsimp only
  rw [h.filled]
  simp

end Ring

end CallByValue
