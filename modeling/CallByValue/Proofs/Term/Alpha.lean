import CallByValue.Term.Alpha
import CallByValue.Proofs.Term.Nameless
import CallByValue.Proofs.Term.Reduce

/-!
# Alpha-equality without names

Two terms are alpha-equal exactly if they are the same without their bound names
(`Term.alphaEq_iff_nameless_eq`).  So everything that can be computed from the nameless term respects
alpha-equality: size and depth, being a value, substitution (`Term.nameless_subst_congr`), and with the
contraction of a redex (`Term.nameless_contract_congr`) a whole reduction step
(`Term.map_nameless_reduce_congr`).
-/

namespace CallByValue

namespace Nameless

theorem shift_injective (c : Nat) : Function.Injective fun u : Nameless => u.shift c := by
  intro u v h
  induction u generalizing v c with
  | bound i =>
    cases v with
    | bound j =>
      simp only [shift, bound.injEq] at h ⊢
      split_ifs at h <;> omega
    | _ => simp [shift] at h
  | free x =>
    cases v with
    | free y => simpa [shift] using h
    | _ => simp [shift] at h
  | abs b ih =>
    cases v with
    | abs c => simpa [shift] using ih _ (by simpa [shift] using h)
    | _ => simp [shift] at h
  | app f a ihf iha =>
    cases v with
    | app g c =>
      simp only [shift, app.injEq] at h
      rw [ihf _ h.1, iha _ h.2]
    | _ => simp [shift] at h

theorem shift_zero_ne_bound_zero (u : Nameless) : u.shift 0 ≠ bound 0 := by
  cases u <;> simp [shift]

/-- What the bound variables stand for when the outermost binder is removed and its variable replaced
by `r`. -/
def fill (r : Nameless) : Nat → Nameless
  | 0 => r
  | i + 1 => bound i

/-- The number of nodes. -/
def size : Nameless → Nat
  | bound _ => 1
  | free _ => 1
  | abs b => 1 + b.size
  | app f a => 1 + f.size + a.size

/-- The height; a variable has depth 1. -/
def depth : Nameless → Nat
  | bound _ => 1
  | free _ => 1
  | abs b => 1 + b.depth
  | app f a => 1 + max f.depth a.depth

/-- Abstractions are the only values. -/
def isValue : Nameless → Bool
  | abs _ => true
  | _ => false

end Nameless

namespace Term

open Nameless

/-! ### Alpha-equality is equality of nameless terms -/

/-- The level of the innermost binder of `x` among the binders of a scope, zero if it is none of them. -/
def levelIn : List Name → Name → Nat
  | [], _ => 0
  | y :: scope, x => if x = y then scope.length + 1 else levelIn scope x

theorem levelIn_le_length (scope : List Name) (x : Name) : levelIn scope x ≤ scope.length := by
  induction scope with
  | nil => exact Nat.le_refl 0
  | cons y scope ih =>
    rw [levelIn]
    split
    · exact Nat.le_refl _
    · exact ih.trans (Nat.le_succ _)

/-- Variables have the same level, or none and the same name, exactly if they are the same without names. -/
theorem levelIn_eq_iff (scope : List (Name × Name)) (x y : Name) :
    (levelIn (scope.map Prod.fst) x = levelIn (scope.map Prod.snd) y ∧
      (levelIn (scope.map Prod.fst) x ≠ 0 ∨ x = y)) ↔
      ofName (scope.map Prod.fst) x = ofName (scope.map Prod.snd) y := by
  induction scope with
  | nil => simp [levelIn, ofName_nil]
  | cons p scope ih =>
    obtain ⟨a, b⟩ := p
    have hx := levelIn_le_length (scope.map Prod.fst) x
    have hy := levelIn_le_length (scope.map Prod.snd) y
    simp only [List.length_map] at hx hy
    simp only [List.map_cons, ofName_cons, levelIn, List.length_map]
    by_cases hxa : x = a
    · by_cases hyb : y = b
      · simp [hxa, hyb]
      · -- the one variable belongs to the innermost pair of binders and the other does not
        have hne : scope.length + 1 ≠ levelIn (scope.map Prod.snd) y := by omega
        simp [hxa, hyb, enter_of_ne, (shift_zero_ne_bound_zero _).symm, hne]
    · by_cases hyb : y = b
      · have hne : levelIn (scope.map Prod.fst) x ≠ scope.length + 1 := by omega
        simp [hxa, hyb, enter_of_ne, shift_zero_ne_bound_zero, hne]
      · rw [if_neg hxa, if_neg hyb, ih, enter_of_ne _ hxa, enter_of_ne _ hyb,
          (shift_injective 0).eq_iff]

/-- The levels are those of the pairs of binders around, the innermost first. -/
structure Levels.Of (s : Levels) (scope : List (Name × Name)) : Prop where
  /-- In the one term. -/
  left (x : Name) : s.1.getD x 0 = levelIn (scope.map Prod.fst) x
  /-- In the other. -/
  right (y : Name) : s.2.getD y 0 = levelIn (scope.map Prod.snd) y

namespace Levels.Of

variable {s r : Levels} {scope : List (Name × Name)} {x y : Name}

theorem enter (h : s.Of scope) :
    Of (s.1.set x (scope.length + 1), s.2.set y (scope.length + 1)) ((x, y) :: scope) := by
  constructor <;> intro z <;> simp [levelIn, h.left, h.right]

/-- Behind a pair of binders the levels are what they were before. -/
theorem leave (h : s.Of scope) (hr : r.Of ((x, y) :: scope)) :
    Of (r.1.set x (s.1.getD x 0), r.2.set y (s.2.getD y 0)) scope := by
  constructor <;> intro z
  · by_cases hz : z = x
    · simp [hz, h.left]
    · simp [hz, hr.left, levelIn]
  · by_cases hz : z = y
    · simp [hz, h.right]
    · simp [hz, hr.right, levelIn]

theorem sameVar_iff (h : s.Of scope) : sameVar s x y = true ↔
    ofName (scope.map Prod.fst) x = ofName (scope.map Prod.snd) y := by
  rw [← levelIn_eq_iff, sameVar, h.left, h.right]
  split <;> grind

end Levels.Of

/-- Terms are compared as their nameless forms are, and the levels are put back. -/
theorem alphaEqIn_iff {t u : Term} {scope : List (Name × Name)} {s : Levels} (h : s.Of scope) :
    ((alphaEqIn t u (scope.length + 1) s).1 = true ↔
      t.namelessIn (scope.map Prod.fst) = u.namelessIn (scope.map Prod.snd)) ∧
      (alphaEqIn t u (scope.length + 1) s).2.Of scope := by
  induction t generalizing u scope s with
  | var x =>
    cases u with
    | var y => exact ⟨h.sameVar_iff, h⟩
    | abs y c => exact ⟨by simp [alphaEqIn, namelessIn], h⟩
    | app g c => exact ⟨by simp [alphaEqIn, namelessIn], h⟩
  | abs x b ih =>
    cases u with
    | var y => exact ⟨by simp [alphaEqIn, namelessIn, (ofName_ne_abs _ y _).symm], h⟩
    | abs y c =>
      obtain ⟨hbody, hlevels⟩ := ih (u := c) (h.enter (x := x) (y := y))
      refine ⟨?_, h.leave hlevels⟩
      rw [namelessIn, namelessIn, Nameless.abs.injEq]
      exact hbody
    | app g c => exact ⟨by simp [alphaEqIn, namelessIn], h⟩
  | app f a ihf iha =>
    cases u with
    | var y => exact ⟨by simp [alphaEqIn, namelessIn, (ofName_ne_app _ y _ _).symm], h⟩
    | abs y c => exact ⟨by simp [alphaEqIn, namelessIn], h⟩
    | app g c =>
      obtain ⟨hfun, hlevels⟩ := ihf (u := g) h
      obtain ⟨harg, hlevels'⟩ := iha (u := c) hlevels
      rw [namelessIn, namelessIn, Nameless.app.injEq, ← hfun, ← harg, alphaEqIn]
      split
      · next hf => exact ⟨by simp [hf], hlevels'⟩
      · next hf => exact ⟨by simp [hf], hlevels⟩

theorem alphaEq_iff_nameless_eq {t u : Term} : t.alphaEq u = true ↔ t.nameless = u.nameless := by
  have hempty : Levels.Of ({}, {}) [] := ⟨fun _ => rfl, fun _ => rfl⟩
  exact (alphaEqIn_iff hempty).1

/-! ### What does not depend on bound names -/

@[simp] theorem nameless_var (x : Name) : (var x).nameless = .free x := rfl

@[simp] theorem nameless_abs (x : Name) (b : Term) :
    (abs x b).nameless = .abs (b.translate (enter free x)) := by
  rw [nameless, namelessIn, namelessIn_eq_translate, ofName_cons, ofName_nil]

@[simp] theorem nameless_app (f a : Term) :
    (app f a).nameless = .app f.nameless a.nameless := rfl

theorem size_namelessIn (scope : List Name) (t : Term) : (t.namelessIn scope).size = t.size := by
  induction t generalizing scope with
  | var x => simp only [namelessIn, ofName]; split <;> rfl
  | abs x b ih => simp [namelessIn, Nameless.size, size, ih]
  | app f a ihf iha => simp [namelessIn, Nameless.size, size, ihf, iha]

theorem depth_namelessIn (scope : List Name) (t : Term) :
    (t.namelessIn scope).depth = t.depth := by
  induction t generalizing scope with
  | var x => simp only [namelessIn, ofName]; split <;> rfl
  | abs x b ih => simp [namelessIn, Nameless.depth, depth, ih]
  | app f a ihf iha => simp [namelessIn, Nameless.depth, depth, ihf, iha]

variable {t u : Term}

theorem size_eq_of_nameless_eq (h : t.nameless = u.nameless) : t.size = u.size := by
  rw [← size_namelessIn [] t, ← size_namelessIn [] u]
  exact congrArg Nameless.size h

theorem depth_eq_of_nameless_eq (h : t.nameless = u.nameless) : t.depth = u.depth := by
  rw [← depth_namelessIn [] t, ← depth_namelessIn [] u]
  exact congrArg Nameless.depth h

theorem isValue_nameless (t : Term) : t.nameless.isValue = t.isValue := by
  cases t <;> rfl

theorem isValue_eq_of_nameless_eq (h : t.nameless = u.nameless) : t.isValue = u.isValue := by
  rw [← isValue_nameless t, ← isValue_nameless u, h]

/-! ### Substitution and reduction -/

theorem nameless_subst_congr {r q : Term} (x : Name) (ht : t.nameless = u.nameless)
    (hr : r.nameless = q.nameless) : (t.subst r x).nameless = (u.subst q x).nameless := by
  simp only [nameless_eq_translate, translate_subst] at hr ⊢
  rw [hr, translate_eq_assign t, translate_eq_assign u, ht]

/-- **Contraction respects alpha-equality**: only the nameless body and argument count. -/
theorem nameless_contract_congr {x y : Name} {b c a d : Term}
    (hb : (abs x b).nameless = (abs y c).nameless) (ha : a.nameless = d.nameless) :
    (b.subst a x).nameless = (c.subst d y).nameless := by
  -- Filling the hole that the binder leaves in a nameless body gives the contracted term.
  have hfill : ∀ (z : Name) (e : Term), (e.subst a z).nameless =
      (e.translate (enter free z)).assign (fill a.nameless) free := by
    intro z e
    rw [nameless_eq_translate, translate_subst, ← nameless_eq_translate, translate_assign]
    congr 1
    funext w
    by_cases h : w = z
    · simp [h, assign, fill]
    · simp [h, enter_of_ne, shift, assign]
  rw [nameless_abs, nameless_abs, Nameless.abs.injEq] at hb
  rw [nameless_subst_congr y rfl ha.symm, hfill, hfill, hb]

theorem map_nameless_reduce_congr (h : t.nameless = u.nameless) :
    t.reduce.map nameless = u.reduce.map nameless := by
  induction t generalizing u with
  | var x =>
    cases u with
    | var y => rfl
    | abs y c => simp at h
    | app g c => simp at h
  | abs x b =>
    cases u with
    | var y => simp at h
    | abs y c => rfl
    | app g c => simp at h
  | app f a ihf iha =>
    cases u with
    | var y => simp at h
    | abs y c => simp at h
    | app g c =>
      rw [nameless_app, nameless_app, Nameless.app.injEq] at h
      obtain ⟨hf, ha⟩ := h
      by_cases hv : f.isValue = true
      · have hv' := isValue_eq_of_nameless_eq hf ▸ hv
        obtain ⟨x, b, rfl⟩ := isValue_iff.1 hv
        obtain ⟨y, d, rfl⟩ := isValue_iff.1 hv'
        rw [reduce_app_abs, reduce_app_abs, isValue_eq_of_nameless_eq ha]
        split_ifs
        · simp only [Option.map_some, nameless_contract_congr hf ha]
        · -- the step is in the argument, in contexts with the same nameless form
          have hcomp : ∀ (z : Name) (e : Term), nameless ∘ app (abs z e) =
              Nameless.app (abs z e).nameless ∘ nameless := fun _ _ => rfl
          rw [Option.map_map, Option.map_map, hcomp, hcomp, hf, ← Option.map_map, iha ha,
            Option.map_map]
      · -- the step is in the function
        have hv' : g.isValue ≠ true := isValue_eq_of_nameless_eq hf ▸ hv
        have hcomp : ∀ e : Term, nameless ∘ (app · e) = (Nameless.app · e.nameless) ∘ nameless :=
          fun _ => rfl
        rw [reduce_app_of_not_isValue a hv, reduce_app_of_not_isValue c hv', Option.map_map,
          Option.map_map, hcomp, hcomp, ha, ← Option.map_map, ihf hf, Option.map_map]

end Term

end CallByValue
