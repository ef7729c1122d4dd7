import CallByValue.Proofs.Term.Alpha
import Mathlib.Order.Basic
import Mathlib.Order.Bounds.Defs

/-!
# Alpha-conversion

Alpha-conversion is usually defined by what one may do with a term: rename the parameter of an
abstraction to a name that is not free in its body, anywhere in the term and as often as one likes.  A
relation that allows this is a `Term.Conversion`.  `Term.alphaEq` compares two terms side by side and
renames nothing, and yet it is the least such relation (`Term.alphaEq_isLeast_conversion`):

* it is one, because it is equality of nameless terms (`Term.congruence_nameless`), which a renaming
  does not change (`Term.nameless_abs_rename`);
* it is below all others, because two abstractions that are equal without names can both be renamed to
  one name that is new to both, and then their bodies are equal without names again
  (`Term.Conversion.of_nameless_eq`).

The last section uses the nameless terms for two substitutions in a row, which may change places if the
second one is also made in the replacement of the first (`Term.subst_subst_alphaEq`).
-/

namespace CallByValue

namespace Term

open Nameless

/-- An equivalence of terms that abstraction and application preserve. -/
structure Congruence (R : Term → Term → Prop) : Prop extends Equivalence R where
  abs : ∀ (x : Name) {b c : Term}, R b c → R (abs x b) (abs x c)
  app : ∀ {f g a c : Term}, R f g → R a c → R (app f a) (app g c)

/-- A congruence that lets the parameter of an abstraction be renamed to any name that is not free in
the body. -/
structure Conversion (R : Term → Term → Prop) : Prop extends Congruence R where
  rename : ∀ (x y : Name) (b : Term), y ∉ b.freeVars → R (.abs x b) (.abs y (b.subst (var y) x))

/-! ### Nameless terms -/

section Nameless

variable {b c : Term}

theorem nameless_abs_congr (x : Name) (h : b.nameless = c.nameless) :
    (abs x b).nameless = (abs x c).nameless := by
  rw [nameless_abs, nameless_abs, translate_eq_assign b, translate_eq_assign c, h]

/-- Renaming a parameter does not change the nameless term. -/
theorem nameless_abs_rename (x : Name) {y : Name} (hy : y ∉ b.freeVars) :
    (abs y (b.subst (var y) x)).nameless = (abs x b).nameless := by
  have hfree : b.isFree y ≠ true := fun h => hy (mem_freeVars.2 h)
  calc (abs y (b.subst (var y) x)).nameless
      = .abs (b.translate (Function.update (enter free y) x (.bound 0))) := by
        rw [nameless_abs, translate_subst, translate, enter_self]
    _ = .abs (b.translate (enter free x)) := by rw [translate_enter_rename _ hfree]
    _ = (abs x b).nameless := (nameless_abs x b).symm

theorem congruence_nameless : Congruence fun t u => t.nameless = u.nameless where
  refl _ := rfl
  symm := Eq.symm
  trans := Eq.trans
  abs x _ _ h := nameless_abs_congr x h
  app hf ha := by rw [nameless_app, nameless_app, hf, ha]

theorem conversion_nameless : Conversion fun t u => t.nameless = u.nameless where
  toCongruence := congruence_nameless
  rename x _ _ hy := (nameless_abs_rename x hy).symm

end Nameless

/-! ### Alpha-equality -/

theorem alphaEq_eq_nameless_eq :
    (fun t u : Term => t.alphaEq u = true) = fun t u => t.nameless = u.nameless := by
  funext t u
  exact propext alphaEq_iff_nameless_eq

/-- **Alpha-equality is decided.**  The comparison of two terms succeeds exactly if they are the same
without their bound names.  So it is an equivalence, and abstraction and application preserve it. -/
theorem alphaEq_decides_nameless :
    (∀ t u : Term, t.alphaEq u = true ↔ t.nameless = u.nameless) ∧
      Congruence fun t u => t.alphaEq u = true := by
  refine ⟨fun t u => alphaEq_iff_nameless_eq, ?_⟩
  rw [alphaEq_eq_nameless_eq]
  exact congruence_nameless

/-- A name that is free in neither of two terms. -/
theorem exists_notMem_freeVars (b c : Term) : ∃ z, z ∉ b.freeVars ∧ z ∉ c.freeVars :=
  ⟨Name.fresh [] [b.freeVars, c.freeVars], Name.fresh_notMem (by simp), Name.fresh_notMem (by simp)⟩

/-- Terms that are equal without names are related by every conversion. -/
theorem Conversion.of_nameless_eq {R : Term → Term → Prop} (hR : Conversion R) {t u : Term}
    (h : t.nameless = u.nameless) : R t u := by
  -- the induction is on the size, because a renamed body is no part of the term
  induction hn : t.size using Nat.strong_induction_on generalizing t u with
  | _ n ih =>
    cases t with
    | var x =>
      cases u with
      | var y =>
        obtain rfl : x = y := by simpa using h
        exact hR.refl _
      | abs y c => simp at h
      | app g c => simp at h
    | abs x b =>
      cases u with
      | var y => simp at h
      | abs y c =>
        obtain ⟨z, hb, hc⟩ := exists_notMem_freeVars b c
        have hbody : (b.subst (var z) x).nameless = (c.subst (var z) y).nameless :=
          nameless_contract_congr h rfl
        have hsize : (b.subst (var z) x).size < n := by
          rw [size_subst_var, ← hn, size]
          omega
        have hrenamed : R (abs z (b.subst (var z) x)) (abs z (c.subst (var z) y)) :=
          hR.abs z (ih _ hsize hbody rfl)
        exact hR.trans (hR.rename x z b hb) (hR.trans hrenamed (hR.symm (hR.rename y z c hc)))
      | app g c => simp at h
    | app f a =>
      cases u with
      | var y => simp at h
      | abs y c => simp at h
      | app g c =>
        rw [nameless_app, nameless_app, Nameless.app.injEq] at h
        rw [size] at hn
        exact hR.app (ih f.size (by omega) h.1 rfl) (ih a.size (by omega) h.2 rfl)

/-- **Alpha-equality is alpha-conversion**: the least equivalence that abstraction and application
preserve and that lets a parameter be renamed, by substitution, to a name that is not free in the
body. -/
theorem alphaEq_isLeast_conversion :
    IsLeast {R : Term → Term → Prop | Conversion R} fun t u => t.alphaEq u = true := by
  rw [alphaEq_eq_nameless_eq]
  refine ⟨conversion_nameless, ?_⟩
  -- relations are ordered by inclusion
  intro R hR t u h
  exact hR.of_nameless_eq h

/-! ### Two substitutions -/

/-- Two substitutions in a row change the environment twice, in either order. -/
theorem translate_subst_subst (t a : Term) {b : Term} {x y : Name} (hxy : x ≠ y)
    (hx : x ∉ b.freeVars) (ρ : Name → Nameless) :
    ((t.subst a x).subst b y).translate ρ =
      ((t.subst b y).subst (a.subst b y) x).translate ρ := by
  have hfree : ∀ z, b.isFree z = true → z ≠ x := by
    rintro z hz rfl
    exact hx (mem_freeVars.2 hz)
  -- what is put for `x` does not matter to `b`
  have hb : ∀ u, b.translate (Function.update ρ x u) = b.translate ρ := fun u =>
    translate_congr fun z hz => Function.update_of_ne (hfree z hz) ..
  simp only [translate_subst, hb]
  rw [Function.update_comm hxy]

/-- **The substitution lemma.**  To substitute `a` for `x` and then `b` for `y` is, up to bound names,
to substitute `b` for `y` first and then, for `x`, what `a` becomes by it, where `x` is another name
than `y` and not free in `b`. -/
theorem subst_subst_alphaEq (t a b : Term) {x y : Name} (hxy : x ≠ y) (hx : x ∉ b.freeVars) :
    ((t.subst a x).subst b y).alphaEq ((t.subst b y).subst (a.subst b y) x) = true := by
  rw [alphaEq_iff_nameless_eq, nameless_eq_translate, nameless_eq_translate]
  exact translate_subst_subst t a hxy hx free

/-- A parameter `y` that only one of the two orders has to rename. -/
theorem subst_subst_alphaEq_renamed :
    let x := utf8 "x"
    let y := utf8 "y"
    let w := utf8 "w"
    let t := abs y (app (var x) (var y))
    let renamed := utf8 "y1"
    (x ≠ y ∧ x ∉ (var w).freeVars) ∧
      (t.subst (var y) x).subst (var w) y = abs renamed (app (var w) (var renamed)) ∧
      (t.subst (var w) y).subst ((var y).subst (var w) y) x = abs y (app (var w) (var y)) ∧
      ((t.subst (var y) x).subst (var w) y).alphaEq
        ((t.subst (var w) y).subst ((var y).subst (var w) y) x) = true := by
  intro x y w t renamed
  have hxy : x ≠ y := by decide
  have hx : x ∉ (var w).freeVars := by decide
  exact ⟨⟨hxy, hx⟩, by decide +kernel, by decide +kernel,
    subst_subst_alphaEq t (var y) (var w) hxy hx⟩

end Term

end CallByValue
