import CallByValue.Term.Names

/-!
# Substitution

`t.subst r x` replaces the free occurrences of `x` in `t` by `r` and captures nothing: an
abstraction whose parameter is free in `r` is renamed first, to a name that is free neither in its
body nor in `r` and is not `x`.

Renaming is itself a substitution, and the substitution goes on in its result.  That result is no
larger than the body it came from, because replacing a variable by a variable keeps the size; the
recursion carries this fact along.
-/

namespace CallByValue

namespace Term

/-- Replaces the free occurrences of `x` by `r`, whose free variables are `fv`. -/
def substWith (r : Term) (fv : List Name) (x : Name) (t : Term) :
    { u : Term // (∃ y, r = var y) → u.size = t.size } :=
  match t with
  | var y =>
    if y = x then ⟨r, by rintro ⟨z, rfl⟩; rfl⟩ else ⟨var y, fun _ => rfl⟩
  | app f a =>
    let f' := substWith r fv x f
    let a' := substWith r fv x a
    ⟨app f'.1 a'.1, fun h => by simp [size, f'.2 h, a'.2 h]⟩
  | abs y b =>
    if y = x then ⟨abs y b, fun _ => rfl⟩
    else if y ∈ fv then
      let z := Name.fresh y [b.freeVars, fv, [x]]
      let ⟨b', hb⟩ := substWith (var z) (var z).freeVars y b
      have hb := hb ⟨z, rfl⟩
      let c := substWith r fv x b'
      ⟨abs z c.1, fun h => by simp [size, c.2 h, hb]⟩
    else
      let b' := substWith r fv x b
      ⟨abs y b'.1, fun h => by simp [size, b'.2 h]⟩
termination_by t.size
decreasing_by all_goals simp only [size]; omega

/-- Replaces the free occurrences of `x` in `t` by `r` without capture. -/
def subst (t r : Term) (x : Name) : Term := (substWith r r.freeVars x t).1

theorem subst_var (r : Term) (x y : Name) :
    (var y).subst r x = if y = x then r else var y := by
  rw [subst, substWith]
  split <;> rfl

theorem subst_app (f a r : Term) (x : Name) :
    (app f a).subst r x = app (f.subst r x) (a.subst r x) := by
  rw [subst, substWith]
  rfl

theorem subst_abs (b r : Term) (x y : Name) :
    (abs y b).subst r x =
      if y = x then abs y b
      else if y ∈ r.freeVars then
        let z := Name.fresh y [b.freeVars, r.freeVars, [x]]
        abs z ((b.subst (var z) y).subst r x)
      else abs y (b.subst r x) := by
  rw [subst, substWith]
  split
  · rfl
  · split <;> rfl

theorem size_subst_var (t : Term) (x y : Name) : (t.subst (var y) x).size = t.size :=
  (substWith (var y) (var y).freeVars x t).2 ⟨y, rfl⟩

end Term

end CallByValue
