import CallByValue.Proofs.Term.Subst
import Mathlib.Data.Finset.Basic
import Mathlib.Logic.Function.Iterate
import Mathlib.Tactic.Linarith
import Mathlib.Tactic.Ring

/-!
# Counting occurrences

How often a name occurs free in a term, and what a substitution makes of these numbers: it takes away
the occurrences of the replaced name and adds, for each of them, those of the replacement
(`Term.occurrences_subst`).  A renaming on the way changes no count but those of the two names that it
is about, and neither of them counts.

* `Term.freeVars_subst`: the free variables of a substitution are exactly those of the term without
  the replaced name and, if there was something to replace, those of the replacement.
* `Term.size_subst`: each replaced occurrence adds the size of the replacement less one.  In a renamed
  body there are as many occurrences to replace as before, by `Term.occurrences_subst`.
* `Term.subst_recursion_and_size`: the recursion of substitution is well founded.  It is stated for
  the recursion as it is written down (`Term.substStep`), which goes on in a renamed body that is no
  part of the term: renaming replaces variables by a variable, so the renamed body is no larger than
  the body.
-/

namespace CallByValue

namespace Term

/-- The number of free occurrences of `x`. -/
def occurrences (x : Name) : Term → Nat
  | var y => if y = x then 1 else 0
  | abs y b => if y = x then 0 else b.occurrences x
  | app f a => f.occurrences x + a.occurrences x

theorem occurrences_eq_zero {t : Term} {x : Name} (h : t.isFree x ≠ true) : t.occurrences x = 0 := by
  induction t with
  | var y => exact if_neg (mt isFree_var.2 h)
  | abs y b ih =>
    rw [occurrences]
    split_ifs with hyx
    · rfl
    · exact ih fun hb => h (isFree_abs.2 ⟨hyx, hb⟩)
  | app f a ihf iha =>
    rw [Ne, isFree_app, not_or] at h
    rw [occurrences, ihf h.1, iha h.2]

/-- Each occurrence of the replaced name gives way to the occurrences in the replacement. -/
theorem occurrences_subst (t r : Term) (x w : Name) :
    (t.subst r x).occurrences w =
      (if w = x then 0 else t.occurrences w) + t.occurrences x * r.occurrences w := by
  induction t, r, x using subst_induction generalizing w with
  | var y r x =>
    rw [subst_var]
    by_cases hyx : y = x
    · subst hyx
      by_cases hw : w = y
      · simp [occurrences, hw]
      · simp [occurrences, hw, Ne.symm hw]
    · by_cases hw : w = x
      · subst hw
        simp [occurrences, hyx]
      · simp [occurrences, hyx, hw]
  | app f a r x ihf iha =>
    rw [subst_app]
    simp only [occurrences, ihf, iha]
    split_ifs <;> ring
  | bound b r x =>
    rw [subst_abs_self]
    by_cases hw : w = x
    · simp [occurrences, hw]
    · simp [occurrences, hw]
  | renamed y b r x z hz hyx hy ihrename ih =>
    obtain ⟨hzb, hzr, hzx⟩ := isFree_fresh hz
    rw [subst_abs_of_mem hz hyx hy]
    by_cases hzw : z = w
    · -- the new name is bound in the result, and it occurs nowhere else
      subst hzw
      simp [occurrences, hyx, occurrences_eq_zero hzb, occurrences_eq_zero hzr]
    · have hx : (b.subst (var z) y).occurrences x = b.occurrences x := by
        rw [ihrename, if_neg (Ne.symm hyx), occurrences, if_neg hzx, Nat.mul_zero, Nat.add_zero]
      have hw : (b.subst (var z) y).occurrences w = if y = w then 0 else b.occurrences w := by
        rw [ihrename, occurrences, if_neg hzw, Nat.mul_zero, Nat.add_zero]
        simp only [eq_comm]
      simp only [occurrences, if_neg hzw, if_neg hyx, ih, hx, hw]
  | kept y b r x hyx hy ih =>
    rw [subst_abs_of_notMem hyx hy]
    by_cases hyw : y = w
    · subst hyw
      have hr : r.isFree y ≠ true := fun h => hy (mem_freeVars.2 h)
      simp [occurrences, occurrences_eq_zero hr]
    · simp only [occurrences, if_neg hyw, if_neg hyx, ih]

/-! ### Free variables -/

/-- **The free variables of a substitution** are those of the term without the replaced name and, if
that name was free, those of the replacement: none is captured, none is lost and no new name is left
over. -/
theorem freeVars_subst (t r : Term) (x : Name) :
    (t.subst r x).freeVars.toFinset =
      t.freeVars.toFinset \ {x} ∪ if x ∈ t.freeVars then r.freeVars.toFinset else ∅ := by
  ext w
  have hmem : w ∈ (if x ∈ t.freeVars then r.freeVars.toFinset else ∅) ↔
      x ∈ t.freeVars ∧ w ∈ r.freeVars := by
    split_ifs with hx <;> simp [hx]
  rw [Finset.mem_union, hmem, Finset.mem_sdiff, Finset.mem_singleton]
  simp only [List.mem_toFinset, mem_freeVars, isFree_subst]

/-! ### Size -/

theorem size_pos (t : Term) : 0 < t.size := by
  cases t <;> simp only [size] <;> omega

theorem size_subst (t r : Term) (x : Name) :
    (t.subst r x).size + t.occurrences x = t.size + t.occurrences x * r.size := by
  induction t, r, x using subst_induction with
  | var y r x =>
    rw [subst_var]
    by_cases hyx : y = x
    · simp [occurrences, size, hyx, Nat.add_comm]
    · simp [occurrences, size, hyx]
  | app f a r x ihf iha =>
    rw [subst_app]
    simp only [occurrences, size, Nat.add_mul]
    omega
  | bound b r x => simp [subst_abs_self, occurrences]
  | renamed y b r x z hz hyx hy _ ih =>
    obtain ⟨-, -, hzx⟩ := isFree_fresh hz
    -- the new name is not `x`, so renaming leaves as many occurrences to replace
    have hx : (b.subst (var z) y).occurrences x = b.occurrences x := by
      rw [occurrences_subst, if_neg (Ne.symm hyx), occurrences, if_neg hzx, Nat.mul_zero,
        Nat.add_zero]
    rw [hx, size_subst_var] at ih
    rw [subst_abs_of_mem hz hyx hy]
    simp only [occurrences, size, if_neg hyx]
    omega
  | kept y b r x hyx hy ih =>
    rw [subst_abs_of_notMem hyx hy]
    simp only [occurrences, size, if_neg hyx]
    omega

/-! ### Recursion -/

/-- One round of the recursion of substitution, where `call` answers the recursive calls. -/
def substStep (call : Term → Term → Name → Term) : Term → Term → Name → Term
  | var y, r, x => if y = x then r else var y
  | app f a, r, x => app (call f r x) (call a r x)
  | abs y b, r, x =>
    if y = x then abs y b
    else if r.freeVars.contains y then
      let z := Name.fresh y [b.freeVars, r.freeVars, [x]]
      abs z (call (call b (var z) y) r x)
    else abs y (call b r x)

/-- A round makes calls on smaller terms only. -/
theorem substStep_eq_subst {call : Term → Term → Name → Term} {t : Term}
    (h : ∀ u : Term, u.size < t.size → ∀ r x, call u r x = u.subst r x) (r : Term) (x : Name) :
    substStep call t r x = t.subst r x := by
  cases t with
  | var y => rw [substStep, subst_var]
  | app f a =>
    simp only [size] at h
    rw [substStep, subst_app, h f (by omega), h a (by omega)]
  | abs y b =>
    simp only [size] at h
    have hb := h b (by omega)
    have hrenamed : ∀ z, call (b.subst (var z) y) r x = (b.subst (var z) y).subst r x :=
      fun z => h _ (by rw [size_subst_var]; omega) r x
    simp only [substStep, subst_abs, hb, hrenamed, List.contains_iff_mem]

theorem iterate_substStep (call : Term → Term → Name → Term) {n : Nat} {t : Term} (h : t.size ≤ n)
    (r : Term) (x : Name) : (substStep^[n]) call t r x = t.subst r x := by
  induction n generalizing t r x with
  | zero => exact absurd (size_pos t) (by omega)
  | succ n ih =>
    rw [Function.iterate_succ_apply']
    -- the outermost round calls on terms of size at most `n`, which the other rounds answer
    exact substStep_eq_subst (fun u hu r x => ih (by omega) r x) r x

/-- **Substitution terminates, and its size is exact.**  The recursion goes to smaller terms, so after as
many rounds as the term has nodes it has its result and needs no further call; in particular the renamed
body, in which it goes on, is no larger than the body.  The size grows, for each free occurrence of the
replaced name, by the size of the replacement less one. -/
theorem subst_recursion_and_size (t r : Term) (x : Name) :
    (∀ call, (substStep^[t.size]) call t r x = t.subst r x) ∧
      (∀ (b : Term) (y z : Name), (b.subst (var z) y).size ≤ b.size) ∧
      ((t.subst r x).size : Int) = t.size + t.occurrences x * (r.size - 1) := by
  refine ⟨fun call => iterate_substStep call (Nat.le_refl _) r x,
    fun b y z => (size_subst_var b y z).le, ?_⟩
  have hsize : ((t.subst r x).size : Int) + t.occurrences x = t.size + t.occurrences x * r.size := by
    exact_mod_cast size_subst t r x
  linarith [mul_sub (t.occurrences x : Int) r.size 1]

end Term

end CallByValue
