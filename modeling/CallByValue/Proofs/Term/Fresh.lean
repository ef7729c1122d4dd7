import CallByValue.Term.Names
import Mathlib.Data.List.Nodup
import Mathlib.Data.List.Perm.Subperm
import Mathlib.Data.List.Range
import Mathlib.Order.Bounds.Basic

/-!
# Fresh names are fresh

A search for a number is given as many tries as there are names to avoid.  Numbers give distinct
names (`Name.numbered_injective`), so one try more would use up more names than there are, and the
search ends at a name outside the list (`leastFrom_notMem`).  Hence `Name.fresh` is in none of its
sets (`Name.fresh_notMem`).
-/

namespace CallByValue

/-! ### Decimal numbers -/

namespace Text

theorem toNat_of_mem_toDigits {n : Nat} {c : Char} (hc : c ∈ Nat.toDigits 10 n) :
    48 ≤ c.val.toNat ∧ c.val.toNat ≤ 57 :=
  Char.isDigit_iff_toNat.1 (Nat.isDigit_of_mem_toDigits (by omega) (by omega) hc)

theorem isDigit_of_mem_ofNat {n : Nat} {b : UInt8} (hb : b ∈ ofNat n) : isDigit b = true := by
  simp only [ofNat, List.mem_map] at hb
  obtain ⟨c, hc, rfl⟩ := hb
  have hd := toNat_of_mem_toDigits hc
  simp only [isDigit, Char.toUInt8, Bool.and_eq_true, decide_eq_true_eq, UInt8.le_iff_toNat_le,
    UInt32.toNat_toUInt8, UInt8.reduceToNat]
  omega

theorem ofNat_ne_nil (n : Nat) : ofNat n ≠ [] := by
  simp [ofNat, Nat.toDigits_ne_nil]

/-- The characters that the digits of a number stand for. -/
theorem map_ofUInt8_ofNat (n : Nat) : (ofNat n).map Char.ofUInt8 = Nat.toDigits 10 n := by
  rw [ofNat, List.map_map]
  conv => rhs; rw [← List.map_id (Nat.toDigits 10 n)]
  apply List.map_congr_left
  intro c hc
  have hd := toNat_of_mem_toDigits hc
  apply Char.ext
  apply UInt32.toNat_inj.1
  have hval : (Char.ofUInt8 c.toUInt8).val.toNat = c.val.toUInt8.toNat :=
    UInt8.toNat_toUInt32 c.val.toUInt8
  rw [Function.comp_apply, hval, UInt32.toNat_toUInt8, id_eq]
  omega

theorem ofNat_injective : Function.Injective ofNat := by
  intro m n h
  have h' := congrArg (List.map Char.ofUInt8) h
  rw [map_ofUInt8_ofNat, map_ofUInt8_ofNat] at h'
  rw [← Nat.ofDigitChars_ten_toDigits (n := m), h', Nat.ofDigitChars_ten_toDigits]

end Text

/-! ### The search for a number -/

/-- A search finds a number if one within its bound passes the test. -/
theorem ok_leastFrom (ok : Nat → Bool) {bound start i : Nat} (h₁ : start ≤ i)
    (h₂ : i ≤ start + bound) (hi : ok i = true) : ok (leastFrom ok bound start) = true := by
  induction bound generalizing start with
  | zero =>
    have : i = start := by omega
    rwa [leastFrom, ← this]
  | succ n ih =>
    rw [leastFrom]
    split
    · assumption
    · next hs =>
      have : i ≠ start := fun he => hs (he ▸ hi)
      exact ih (by omega) (by omega)

theorem le_leastFrom (ok : Nat → Bool) (bound start : Nat) : start ≤ leastFrom ok bound start := by
  induction bound generalizing start with
  | zero => exact Nat.le_refl start
  | succ n ih =>
    rw [leastFrom]
    split
    · exact Nat.le_refl start
    · exact Nat.le_of_succ_le (ih (start + 1))

/-- A search passes over a number only if it fails the test. -/
theorem not_ok_of_lt_leastFrom (ok : Nat → Bool) {bound start i : Nat} (h₁ : start ≤ i)
    (h₂ : i < leastFrom ok bound start) : ok i = false := by
  induction bound generalizing start with
  | zero => exact absurd h₂ (Nat.not_lt_of_le h₁)
  | succ n ih =>
    rw [leastFrom] at h₂
    split at h₂
    · omega
    · next hs =>
      rcases Nat.eq_or_lt_of_le h₁ with rfl | hlt
      · exact Bool.eq_false_iff.2 hs
      · exact ih hlt h₂

/-- A search that its bound does not stop finds the least number that passes the test. -/
theorem isLeast_leastFrom (ok : Nat → Bool) {bound start i : Nat} (h₁ : start ≤ i)
    (h₂ : i ≤ start + bound) (hi : ok i = true) :
    IsLeast {j | start ≤ j ∧ ok j = true} (leastFrom ok bound start) := by
  refine ⟨⟨le_leastFrom ok bound start, ok_leastFrom ok h₁ h₂ hi⟩, ?_⟩
  rintro j ⟨hj, hok⟩
  by_contra hlt
  rw [not_ok_of_lt_leastFrom ok hj (Nat.lt_of_not_le hlt)] at hok
  exact Bool.false_ne_true hok

/-- Among one number more than there are names to avoid, one gives another name. -/
theorem exists_notMem {f : Nat → Name} (hf : Function.Injective f) (avoid : List Name)
    (start : Nat) : ∃ i, start ≤ i ∧ i ≤ start + avoid.length ∧ f i ∉ avoid := by
  by_contra hno
  have hsub : (List.range' start (avoid.length + 1)).map f ⊆ avoid := by
    intro x hx
    obtain ⟨i, hi, rfl⟩ := List.mem_map.1 hx
    rw [List.mem_range'_1] at hi
    by_contra hx'
    exact hno ⟨i, by omega, by omega, hx'⟩
  have hle := (((List.nodup_range' (s := start)).map hf).subperm hsub).length_le
  rw [List.length_map, List.length_range'] at hle
  omega

theorem leastFrom_notMem {f : Nat → Name} (hf : Function.Injective f) (avoid : List Name)
    (start : Nat) :
    f (leastFrom (fun i => !avoid.contains (f i)) avoid.length start) ∉ avoid := by
  obtain ⟨i, h₁, h₂, hi⟩ := exists_notMem hf avoid start
  have hok := ok_leastFrom (fun i => !avoid.contains (f i)) h₁ h₂ (by simpa using hi)
  simpa using hok

/-! ### Fresh names -/

namespace Name

theorem numbered_injective (base : Name) : Function.Injective (numbered base) := by
  intro m n h
  exact Text.ofNat_injective (List.append_cancel_left h)

theorem fresh_notMem_flatten (base : Name) (avoid : List (List Name)) :
    fresh base avoid ∉ avoid.flatten := by
  have hok : (fun i => !avoid.any (·.contains (numbered base i))) =
      fun i => !avoid.flatten.contains (numbered base i) := by
    funext i
    rw [Bool.eq_iff_iff]
    simp
  rw [fresh, hok]
  exact leastFrom_notMem (numbered_injective base) _ _

theorem fresh_notMem {base : Name} {avoid : List (List Name)} {names : List Name}
    (h : names ∈ avoid) : fresh base avoid ∉ names :=
  fun hx => fresh_notMem_flatten base avoid (List.mem_flatten.2 ⟨names, h, hx⟩)

end Name

end CallByValue
