import CallByValue.Proofs.Term.Subst
import Mathlib.Logic.Function.Basic

/-!
# Nameless terms

In a nameless term a bound variable is the number of binders between it and its own, and only free
variables have names.  `Term.nameless` forgets the bound names of a term, and `Nameless.replace` is
substitution where nothing can be captured: the replacement is shifted under every binder.

**Main theorem** (`Term.nameless_subst`): substitution with its renamings is substitution on nameless
terms.

The induction goes through a translation in which every name stands for a nameless term
(`Term.translate`).  There a substitution becomes a change of the environment
(`Term.translate_subst`), whatever the enclosing binders are called, so the renamed body, which is no
subterm, is covered by the same statement.
-/

namespace CallByValue

/-- A term without bound names. -/
inductive Nameless where
  /-- The variable of the `i`-th enclosing binder, counted from the innermost one. -/
  | bound (i : Nat)
  /-- A free variable. -/
  | free (x : Name)
  /-- An abstraction. -/
  | abs (body : Nameless)
  /-- An application. -/
  | app (fn arg : Nameless)
  deriving DecidableEq, Repr

namespace Nameless

/-- Makes room for one more binder outside the innermost `c`. -/
def shift : Nameless → (c : Nat) → Nameless
  | bound i, c => bound (if i < c then i else i + 1)
  | free x, _ => free x
  | abs b, c => abs (b.shift (c + 1))
  | app f a, c => app (f.shift c) (a.shift c)

/-- Replaces the free variable `x` by `r`. -/
def replace (x : Name) : Nameless → (r : Nameless) → Nameless
  | bound i, _ => bound i
  | free y, r => if y = x then r else free y
  | abs b, r => abs (b.replace x (r.shift 0))
  | app f a, r => app (f.replace x r) (a.replace x r)

theorem shift_shift (u : Nameless) {c d : Nat} (h : c ≤ d) :
    (u.shift d).shift c = (u.shift c).shift (d + 1) := by
  induction u generalizing c d with
  | bound i =>
    simp only [shift]
    congr 1
    split_ifs <;> omega
  | free x => rfl
  | abs b ih => rw [shift, shift, ih (Nat.succ_le_succ h)]; rfl
  | app f a ihf iha => simp only [shift, ihf h, iha h]

/-- What the bound variables stand for under one more binder. -/
def up (σ : Nat → Nameless) : Nat → Nameless
  | 0 => bound 0
  | i + 1 => (σ i).shift 0

/-- Replaces all variables at once: the bound ones that no binder of the term binds by `σ`, the free
ones by `ρ`. -/
def assign : (σ : Nat → Nameless) → (ρ : Name → Nameless) → Nameless → Nameless
  | σ, _, bound i => σ i
  | _, ρ, free x => ρ x
  | σ, ρ, abs b => abs (b.assign (up σ) fun x => (ρ x).shift 0)
  | σ, ρ, app f a => app (f.assign σ ρ) (a.assign σ ρ)

/-- An assignment that allows for one more binder at `c` commutes with making room for it. -/
theorem assign_shift {σ σ' : Nat → Nameless} {ρ ρ' : Name → Nameless} (u : Nameless) {c : Nat}
    (hσ : ∀ i, σ' (if i < c then i else i + 1) = (σ i).shift c)
    (hρ : ∀ x, ρ' x = (ρ x).shift c) :
    (u.shift c).assign σ' ρ' = (u.assign σ ρ).shift c := by
  induction u generalizing σ σ' ρ ρ' c with
  | bound i => exact hσ i
  | free x => exact hρ x
  | abs b ih =>
    have hup : ∀ i, up σ' (if i < c + 1 then i else i + 1) = (up σ i).shift (c + 1) := by
      intro i
      cases i with
      | zero => simp [up, shift]
      | succ i =>
        simp only [Nat.add_lt_add_iff_right, up, ← shift_shift _ (Nat.zero_le c), ← hσ i]
        split_ifs <;> rfl
    simp only [shift, assign]
    rw [ih hup fun x => by rw [hρ, shift_shift _ (Nat.zero_le c)]]
  | app f a ihf iha => simp only [shift, assign, ihf hσ hρ, iha hσ hρ]

theorem up_bound : up bound = bound := by
  funext i
  cases i <;> simp [up, shift]

theorem shift_update_free (x : Name) (r : Nameless) :
    (fun y => (Function.update free x r y).shift 0) = Function.update free x (r.shift 0) := by
  funext y
  by_cases h : y = x
  · simp [h]
  · simp [h, shift]

/-- Replacing one free variable is an assignment that keeps all others. -/
theorem assign_update (u : Nameless) (x : Name) (r : Nameless) :
    u.assign bound (Function.update free x r) = u.replace x r := by
  induction u generalizing r with
  | bound i => rfl
  | free y => by_cases h : y = x <;> simp [assign, replace, h]
  | abs b ih => rw [assign, replace, up_bound, shift_update_free, ih]
  | app f a ihf iha => rw [assign, replace, ihf, iha]

/-- The variable that a name stands for under binders of the given names, the innermost first. -/
def ofName (scope : List Name) (x : Name) : Nameless :=
  match scope.idxOf? x with
  | some i => bound i
  | none => free x

@[simp] theorem ofName_ne_abs (scope : List Name) (x : Name) (b : Nameless) :
    ofName scope x ≠ abs b := by
  unfold ofName
  split <;> simp

@[simp] theorem ofName_ne_app (scope : List Name) (x : Name) (f a : Nameless) :
    ofName scope x ≠ app f a := by
  unfold ofName
  split <;> simp

/-- What the names stand for under one more binder. -/
def enter (ρ : Name → Nameless) (x : Name) : Name → Nameless :=
  Function.update (fun y => (ρ y).shift 0) x (bound 0)

@[simp] theorem enter_self (ρ : Name → Nameless) (x : Name) : enter ρ x x = bound 0 :=
  Function.update_self ..

theorem enter_of_ne (ρ : Name → Nameless) {x y : Name} (h : y ≠ x) :
    enter ρ x y = (ρ y).shift 0 :=
  Function.update_of_ne h ..

theorem ofName_nil : ofName [] = free := rfl

theorem ofName_cons (x : Name) (scope : List Name) :
    ofName (x :: scope) = enter (ofName scope) x := by
  funext y
  by_cases h : y = x
  · subst h
    simp [ofName, List.idxOf?_cons]
  · rw [enter_of_ne _ h]
    have hb : (x == y) = false := by simpa using Ne.symm h
    simp only [ofName, List.idxOf?_cons, hb, Bool.false_eq_true, if_false]
    cases scope.idxOf? y <;> simp [shift]

end Nameless

namespace Term

open Nameless

/-- The term without its bound names, under binders of the given names. -/
def namelessIn : List Name → Term → Nameless
  | scope, var x => ofName scope x
  | scope, abs x b => .abs (b.namelessIn (x :: scope))
  | scope, app f a => .app (f.namelessIn scope) (a.namelessIn scope)

/-- The term without its bound names. -/
def nameless (t : Term) : Nameless := t.namelessIn []

/-- The nameless term in which every free name `x` stands for `ρ x`. -/
def translate : (ρ : Name → Nameless) → Term → Nameless
  | ρ, var x => ρ x
  | ρ, abs x b => .abs (b.translate (enter ρ x))
  | ρ, app f a => .app (f.translate ρ) (a.translate ρ)

/-! ### The translation -/

theorem namelessIn_eq_translate (scope : List Name) (t : Term) :
    t.namelessIn scope = t.translate (ofName scope) := by
  induction t generalizing scope with
  | var x => rfl
  | abs x b ih => rw [namelessIn, translate, ih, ofName_cons]
  | app f a ihf iha => rw [namelessIn, translate, ihf, iha]

theorem nameless_eq_translate (t : Term) : t.nameless = t.translate free := by
  rw [nameless, namelessIn_eq_translate, ofName_nil]

theorem translate_congr {t : Term} {ρ σ : Name → Nameless}
    (h : ∀ x, t.isFree x = true → ρ x = σ x) : t.translate ρ = t.translate σ := by
  induction t generalizing ρ σ with
  | var x => exact h x (by simp)
  | abs x b ih =>
    rw [translate, translate, ih]
    intro y hy
    by_cases hyx : y = x
    · rw [hyx, enter_self, enter_self]
    · rw [enter_of_ne _ hyx, enter_of_ne _ hyx, h y (isFree_abs.2 ⟨Ne.symm hyx, hy⟩)]
  | app f a ihf iha =>
    rw [translate, translate, ihf fun x hx => h x (isFree_app.2 (.inl hx)),
      iha fun x hx => h x (isFree_app.2 (.inr hx))]

theorem translate_shift (t : Term) (ρ : Name → Nameless) (c : Nat) :
    t.translate (fun x => (ρ x).shift c) = (t.translate ρ).shift c := by
  induction t generalizing ρ c with
  | var x => rfl
  | abs x b ih =>
    have henter : enter (fun y => (ρ y).shift c) x = fun y => (enter ρ x y).shift (c + 1) := by
      funext y
      by_cases h : y = x
      · simp [h, shift]
      · rw [enter_of_ne _ h, enter_of_ne _ h, shift_shift _ (Nat.zero_le c)]
    rw [translate, translate, shift, henter, ih]
  | app f a ihf iha => rw [translate, translate, shift, ihf, iha]

/-- A term means the same under a binder of a name that is not free in it. -/
theorem translate_enter {t : Term} {x : Name} (ρ : Name → Nameless) (h : t.isFree x ≠ true) :
    t.translate (enter ρ x) = (t.translate ρ).shift 0 := by
  rw [← translate_shift]
  refine translate_congr fun y hy => enter_of_ne _ ?_
  rintro rfl
  exact h hy

theorem translate_assign (t : Term) (τ : Name → Nameless) (σ : Nat → Nameless)
    (ρ : Name → Nameless) :
    (t.translate τ).assign σ ρ = t.translate fun x => (τ x).assign σ ρ := by
  induction t generalizing τ σ ρ with
  | var x => rfl
  | abs x b ih =>
    have henter : enter (fun y => (τ y).assign σ ρ) x =
        fun y => (enter τ x y).assign (up σ) fun z => (ρ z).shift 0 := by
      funext y
      by_cases h : y = x
      · simp [h, assign, up]
      · rw [enter_of_ne _ h, enter_of_ne _ h]
        exact (assign_shift _ (fun _ => rfl) fun _ => rfl).symm
    rw [translate, translate, assign, henter, ih]
  | app f a ihf iha => rw [translate, translate, assign, ihf, iha]

/-- A translation is determined by the term without its bound names. -/
theorem translate_eq_assign (t : Term) (ρ : Name → Nameless) :
    t.translate ρ = t.nameless.assign bound ρ := by
  rw [nameless_eq_translate, translate_assign]
  rfl

/-! ### Substitution -/

theorem enter_update {ρ : Name → Nameless} {x y : Name} (u : Nameless) (h : y ≠ x) :
    enter (Function.update ρ x u) y = Function.update (enter ρ y) x (u.shift 0) := by
  funext z
  by_cases hzy : z = y
  · subst hzy
    rw [enter_self, Function.update_of_ne h, enter_self]
  · rw [enter_of_ne _ hzy]
    by_cases hzx : z = x
    · subst hzx
      rw [Function.update_self, Function.update_self]
    · rw [Function.update_of_ne hzx, Function.update_of_ne hzx, enter_of_ne _ hzy]

theorem enter_update_self (ρ : Name → Nameless) (x : Name) (u : Nameless) :
    enter (Function.update ρ x u) x = enter ρ x := by
  funext z
  by_cases h : z = x
  · rw [h, enter_self, enter_self]
  · rw [enter_of_ne _ h, enter_of_ne _ h, Function.update_of_ne h]

/-- A body whose parameter `y` is renamed to `z` means the same under `z` as it did under `y`, where
`z` is not free in it. -/
theorem translate_enter_rename {b : Term} {y z : Name} (ρ : Name → Nameless)
    (hz : b.isFree z ≠ true) :
    b.translate (Function.update (enter ρ z) y (.bound 0)) = b.translate (enter ρ y) := by
  refine translate_congr fun w hw => ?_
  by_cases hwy : w = y
  · rw [hwy, Function.update_self, enter_self]
  · have hwz : w ≠ z := fun h => hz (h ▸ hw)
    rw [Function.update_of_ne hwy, enter_of_ne _ hwz, enter_of_ne _ hwy]

/-- **Substitution changes the environment**: `x` stands for what the replacement means. -/
theorem translate_subst (t r : Term) (x : Name) (ρ : Name → Nameless) :
    (t.subst r x).translate ρ = t.translate (Function.update ρ x (r.translate ρ)) := by
  induction t, r, x using subst_induction generalizing ρ with
  | var y r x =>
    rw [subst_var, translate]
    split_ifs with h
    · rw [h, Function.update_self]
    · rw [Function.update_of_ne h, translate]
  | app f a r x ihf iha => rw [subst_app, translate, translate, ihf, iha]
  | bound b r x => rw [subst_abs_self, translate, translate, enter_update_self]
  | renamed y b r x z hz hyx hy ihrename ih =>
    -- the new name is bound to the same place, and it hides nothing in the replacement
    obtain ⟨hzb, hzr, hzx⟩ := isFree_fresh hz
    rw [subst_abs_of_mem hz hyx hy, translate, translate, ih, ihrename, translate,
      translate_enter ρ hzr, ← enter_update _ hzx, enter_self, translate_enter_rename _ hzb]
  | kept y b r x hyx hy ih =>
    have hr : r.isFree y ≠ true := fun h => hy (mem_freeVars.2 h)
    rw [subst_abs_of_notMem hyx hy, translate, translate, ih, translate_enter ρ hr,
      enter_update _ hyx]

/-- **Substitution captures nothing**: without bound names, it replaces the free variable by the
replacement, shifted under the binders on the way. -/
theorem nameless_subst (t r : Term) (x : Name) :
    (t.subst r x).nameless = t.nameless.replace x r.nameless := by
  calc (t.subst r x).nameless
      = t.translate (Function.update free x r.nameless) := by
        rw [nameless_eq_translate, translate_subst, ← nameless_eq_translate]
    _ = t.nameless.assign bound (Function.update free x r.nameless) := translate_eq_assign ..
    _ = t.nameless.replace x r.nameless := assign_update ..

end Term

end CallByValue
