import CallByValue.Term.Reduce
import Mathlib.Tactic.SplitIfs

/-!
# Reduction by cases

The search for a redex carries the path from the root in a stack.  What it does below the end of a
path does not depend on the path (`Term.reduceAt_eq_map`), so a step of an application is a step of
its function, a step of its argument or a contraction, and reduction can be read off the term
(`Term.reduce_induction`).

The terms that a term reduces to, one step after another, are its sequence; `Term.after` gives them by
their number.
-/

namespace CallByValue

namespace Term

theorem isValue_iff {t : Term} : t.isValue = true ↔ ∃ x b, t = abs x b := by
  cases t <;> simp [isValue]

/-- The rest of the path only says where the result goes. -/
theorem reduceAt_eq_map (path : List Frame) (t : Term) :
    reduceAt path t = t.reduce.map (plug path) := by
  induction t generalizing path with
  | var x => rfl
  | abs x b => rfl
  | app f a ihf iha =>
    cases f with
    | abs x b =>
      simp only [reduce, reduceAt]
      split_ifs with ha
      · rfl
      · rw [iha, iha [.arg (abs x b)], Option.map_map]
        rfl
    | var x => rfl
    | app g c =>
      simp only [reduce, reduceAt]
      rw [ihf, ihf [.fn a], Option.map_map]
      rfl

@[simp] theorem reduce_var (x : Name) : (var x).reduce = none := rfl

@[simp] theorem reduce_abs (x : Name) (b : Term) : (abs x b).reduce = none := rfl

theorem reduce_app_of_not_isValue {f : Term} (a : Term) (hf : f.isValue ≠ true) :
    (app f a).reduce = f.reduce.map (app · a) := by
  cases f with
  | abs x b => exact absurd rfl hf
  | var x => rfl
  | app g c => exact reduceAt_eq_map [.fn a] (app g c)

theorem reduce_app_abs (x : Name) (b a : Term) :
    (app (abs x b) a).reduce =
      if a.isValue then some (b.subst a x) else a.reduce.map (app (abs x b)) := by
  simp only [reduce, reduceAt]
  split_ifs with ha
  · rfl
  · exact reduceAt_eq_map [.arg (abs x b)] a

/-! ### The ways of a step -/

section Ways

variable {f f' a a' w : Term} (x : Name) (b : Term)

theorem not_isValue_of_reduce (h : a.reduce = some a') : a.isValue ≠ true := by
  intro hv
  obtain ⟨y, c, rfl⟩ := isValue_iff.1 hv
  simp at h

theorem reduce_contract (hw : w.isValue = true) :
    (app (abs x b) w).reduce = some (b.subst w x) := by
  rw [reduce_app_abs, if_pos hw]

theorem reduce_fn (a : Term) (h : f.reduce = some f') : (app f a).reduce = some (app f' a) := by
  rw [reduce_app_of_not_isValue a (not_isValue_of_reduce h), h, Option.map_some]

theorem reduce_arg (h : a.reduce = some a') :
    (app (abs x b) a).reduce = some (app (abs x b) a') := by
  rw [reduce_app_abs, if_neg (not_isValue_of_reduce h), h, Option.map_some]

end Ways

/-- The induction that a step follows: it contracts, or it is a step of the function, or, where the
function is an abstraction, a step of the argument. -/
@[elab_as_elim]
theorem reduce_induction {motive : ∀ t u : Term, t.reduce = some u → Prop}
    (contract : ∀ (x : Name) (b w : Term) (hw : w.isValue = true),
      motive _ _ (reduce_contract x b hw))
    (fn : ∀ (f f' a : Term) (h : f.reduce = some f'), motive f f' h → motive _ _ (reduce_fn a h))
    (arg : ∀ (x : Name) (b a a' : Term) (h : a.reduce = some a'), motive a a' h →
      motive _ _ (reduce_arg x b h))
    {t u : Term} (h : t.reduce = some u) : motive t u h := by
  induction t generalizing u with
  | var x => simp at h
  | abs x b => simp at h
  | app f a ihf iha =>
    by_cases hf : f.isValue = true
    · obtain ⟨x, b, rfl⟩ := isValue_iff.1 hf
      rw [reduce_app_abs] at h
      split_ifs at h with ha
      · obtain rfl := Option.some.inj h
        exact contract x b a ha
      · obtain ⟨a', ha', rfl⟩ := Option.map_eq_some_iff.1 h
        exact arg x b a a' ha' (iha ha')
    · rw [reduce_app_of_not_isValue a hf] at h
      obtain ⟨f', hf', rfl⟩ := Option.map_eq_some_iff.1 h
      exact fn f f' a hf' (ihf hf')

/-! ### Sequences of steps -/

/-- The term after the given number of steps, if there are so many. -/
def after (t : Term) : Nat → Option Term
  | 0 => some t
  | n + 1 => (t.after n).bind reduce

section Sequence

variable {t u v : Term} {m n : Nat}

theorem after_succ (t : Term) (n : Nat) : t.after (n + 1) = (t.after n).bind reduce := rfl

theorem after_one (t : Term) : t.after 1 = t.reduce := rfl

/-- The sequence goes on from each of its terms. -/
theorem after_add (h : t.after m = some u) (n : Nat) : t.after (m + n) = u.after n := by
  induction n with
  | zero => exact h
  | succ n ih => rw [← Nat.add_assoc, after_succ, after_succ, ih]

theorem after_succ_of_reduce (h : t.reduce = some u) (n : Nat) : t.after (n + 1) = u.after n := by
  rw [Nat.add_comm]
  exact after_add (after_one t ▸ h) n

theorem exists_after_of_le (h : t.after n = some u) (hmn : m ≤ n) : ∃ v, t.after m = some v := by
  induction hmn generalizing u with
  | refl => exact ⟨u, h⟩
  | step _ ih =>
    obtain ⟨w, hw, -⟩ := Option.bind_eq_some_iff.1 h
    exact ih hw

/-- The `n`-th term is not beyond a number that no term before it has. -/
theorem le_of_forall_ne {l : Nat} (hu : t.after n = some u)
    (h : ∀ m < n, ∀ v, t.after m = some v → m ≠ l) : n ≤ l := by
  refine Nat.le_of_not_lt fun hlt => ?_
  obtain ⟨v, hv⟩ := exists_after_of_le hu (Nat.le_of_lt hlt)
  exact h l hlt v hv rfl

/-- Nothing follows a term without a step. -/
theorem le_of_reduce_eq_none (hu : t.after n = some u) (hnone : u.reduce = none)
    (hv : t.after m = some v) : m ≤ n := by
  refine Nat.le_of_not_lt fun hlt => ?_
  obtain ⟨w, hw⟩ := exists_after_of_le hv hlt
  rw [after_succ, hu, Option.bind_some, hnone] at hw
  exact absurd hw (by simp)

end Sequence

end Term

end CallByValue
