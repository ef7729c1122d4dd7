import CallByValue.Term.Subst
import CallByValue.Proofs.Term.Free
import CallByValue.Proofs.Term.Fresh

/-!
# Induction along a substitution

A substitution goes into the parts of a term, except where it renames a parameter: there it goes on in
the renamed body, which is no part of the term.  The renamed body is as large as the body, so there
still is an induction with one case for each of the ways of a substitution (`Term.subst_induction`),
and equations say what it gives in each of them.

With it, the free names of the result: those of the term without the replaced one, and those of the
replacement if there was anything to replace (`Term.isFree_subst`).
-/

namespace CallByValue

namespace Term

variable {b r : Term} {x y z : Name}

theorem subst_abs_self (b r : Term) (x : Name) : (abs x b).subst r x = abs x b := by
  rw [subst_abs, if_pos rfl]

theorem subst_abs_of_mem (hz : z = Name.fresh y [b.freeVars, r.freeVars, [x]]) (hyx : y ≠ x)
    (hy : y ∈ r.freeVars) : (abs y b).subst r x = abs z ((b.subst (var z) y).subst r x) := by
  rw [subst_abs, if_neg hyx, if_pos hy, hz]

theorem subst_abs_of_notMem (hyx : y ≠ x) (hy : y ∉ r.freeVars) :
    (abs y b).subst r x = abs y (b.subst r x) := by
  rw [subst_abs, if_neg hyx, if_neg hy]

/-- The new name of a parameter is free neither in the body nor in the replacement and is not the
name that is replaced. -/
theorem isFree_fresh (hz : z = Name.fresh y [b.freeVars, r.freeVars, [x]]) :
    b.isFree z ≠ true ∧ r.isFree z ≠ true ∧ z ≠ x := by
  subst hz
  refine ⟨fun h => ?_, fun h => ?_, fun h => ?_⟩
  · exact Name.fresh_notMem (by simp) (mem_freeVars.2 h)
  · exact Name.fresh_notMem (by simp) (mem_freeVars.2 h)
  · exact Name.fresh_notMem (by simp) (List.mem_singleton.2 h)

/-- The induction that a substitution for `x` in a term follows. -/
@[elab_as_elim]
theorem subst_induction {motive : Term → Term → Name → Prop}
    (var : ∀ y r x, motive (var y) r x)
    (app : ∀ f a r x, motive f r x → motive a r x → motive (app f a) r x)
    (bound : ∀ b r x, motive (abs x b) r x)
    (renamed : ∀ y b r x z, z = Name.fresh y [b.freeVars, r.freeVars, [x]] → y ≠ x →
      y ∈ r.freeVars → motive b (.var z) y → motive (b.subst (.var z) y) r x →
      motive (abs y b) r x)
    (kept : ∀ y b r x, y ≠ x → y ∉ r.freeVars → motive b r x → motive (abs y b) r x)
    (t r : Term) (x : Name) : motive t r x := by
  induction hn : t.size using Nat.strong_induction_on generalizing t r x with
  | _ n ih =>
    cases t with
    | var y => exact var y r x
    | app f a =>
      rw [size] at hn
      exact app f a r x (ih f.size (by omega) f r x rfl) (ih a.size (by omega) a r x rfl)
    | abs y b =>
      rw [size] at hn
      by_cases hyx : y = x
      · rw [hyx]
        exact bound b r x
      · by_cases hy : y ∈ r.freeVars
        · refine renamed y b r x _ rfl hyx hy (ih b.size (by omega) _ _ _ rfl) ?_
          exact ih b.size (by omega) _ r x (size_subst_var b y _)
        · exact kept y b r x hyx hy (ih b.size (by omega) b r x rfl)

theorem isFree_subst (t r : Term) (x w : Name) :
    (t.subst r x).isFree w = true ↔
      t.isFree w = true ∧ w ≠ x ∨ t.isFree x = true ∧ r.isFree w = true := by
  induction t, r, x using subst_induction generalizing w with
  | var y r x =>
    rw [subst_var]
    by_cases h : y = x
    · subst h
      rw [if_pos rfl, isFree_var, isFree_var]
      tauto
    · have hw : y = w → w ≠ x := by
        rintro rfl
        exact h
      rw [if_neg h, isFree_var, isFree_var]
      tauto
  | app f a r x ihf iha =>
    simp only [subst_app, isFree_app, ihf, iha]
    tauto
  | bound b r x =>
    simp only [subst_abs_self, isFree_abs]
    tauto
  | renamed y b r x z hz hyx hy ihrename ih =>
    -- the new name is bound again, and it is none of those that count
    obtain ⟨hzb, hzr, hzx⟩ := isFree_fresh hz
    simp only [subst_abs_of_mem hz hyx hy, isFree_abs, ih, ihrename, isFree_var]
    constructor
    · rintro ⟨hzw, ⟨⟨hb, hwy⟩ | ⟨-, h⟩, hwx⟩ | ⟨⟨hb, -⟩ | ⟨-, h⟩, hr⟩⟩
      · exact .inl ⟨⟨Ne.symm hwy, hb⟩, hwx⟩
      · exact absurd h hzw
      · exact .inr ⟨⟨hyx, hb⟩, hr⟩
      · exact absurd h hzx
    · rintro (⟨⟨hyw, hb⟩, hwx⟩ | ⟨⟨-, hb⟩, hr⟩)
      · exact ⟨fun h => hzb (h ▸ hb), .inl ⟨.inl ⟨hb, Ne.symm hyw⟩, hwx⟩⟩
      · exact ⟨fun h => hzr (h ▸ hr), .inr ⟨.inl ⟨hb, Ne.symm hyx⟩, hr⟩⟩
  | kept y b r x hyx hy ih =>
    have hr : r.isFree w = true → y ≠ w := by
      rintro h rfl
      exact hy (mem_freeVars.2 h)
    simp only [subst_abs_of_notMem hyx hy, isFree_abs, ih]
    tauto

end Term

end CallByValue
