import CallByValue.Proofs.Term.Reduce

/-!
# Reduction by rules

`Term.reduce` looks for the redex in a loop and puts the contracted term back along the path it came.
Here the same is said without a path.  Three rules derive a step of a term from a step of one of its
parts (`Term.Step`), and three rules find the variable that blocks a term (`Term.Stuck`).

Each turn of the loop adds one use of a rule, so the loop and the rules take the same steps
(`Term.reduce_eq_some_iff`).  A term that is no value and has no step is blocked, and the other way
round (`Term.stuck_iff`).
-/

namespace CallByValue

namespace Term

/-- `t.Step u`: there is a derivation that `t` reduces to `u`. -/
inductive Step : Term → Term → Prop
  /-- An abstraction that is applied to an abstraction is contracted. -/
  | contract (x y : Name) (b c : Term) : Step (app (abs x b) (abs y c)) (b.subst (abs y c) x)
  /-- A step of the function. -/
  | fn {f f' : Term} (a : Term) : Step f f' → Step (app f a) (app f' a)
  /-- A step of the argument, once the function is an abstraction. -/
  | arg (x : Name) (b : Term) {a a' : Term} : Step a a' →
      Step (app (abs x b) a) (app (abs x b) a')

/-- `t.Stuck`: a variable stands where `t` would have to reduce next. -/
inductive Stuck : Term → Prop
  | var (x : Name) : Stuck (var x)
  /-- The function is stuck, whatever the argument is. -/
  | fn {s : Term} (a : Term) : Stuck s → Stuck (app s a)
  /-- The function is an abstraction and the argument is stuck. -/
  | arg (x : Name) (b : Term) {s : Term} : Stuck s → Stuck (app (abs x b) s)

variable {t u : Term}

/-! ### Steps -/

theorem Step.of_reduce (h : t.reduce = some u) : t.Step u := by
  induction h using reduce_induction with
  | contract x b w hw =>
    obtain ⟨y, c, rfl⟩ := isValue_iff.1 hw
    exact .contract x y b c
  | fn f f' a _ ih => exact .fn a ih
  | arg x b a a' _ ih => exact .arg x b ih

theorem Step.reduce (h : t.Step u) : t.reduce = some u := by
  induction h with
  | contract x y b c => exact reduce_contract x b rfl
  | fn a _ ih => exact reduce_fn a ih
  | arg x b _ ih => exact reduce_arg x b ih

theorem reduce_eq_some_iff : t.reduce = some u ↔ t.Step u :=
  ⟨.of_reduce, Step.reduce⟩

/-! ### Stuck terms -/

theorem Stuck.not_isValue (h : t.Stuck) : t.isValue ≠ true := by
  intro hv
  obtain ⟨x, b, rfl⟩ := isValue_iff.1 hv
  cases h

theorem Stuck.reduce (h : t.Stuck) : t.reduce = none := by
  induction h with
  | var x => rfl
  | fn a hs ih => rw [reduce_app_of_not_isValue a hs.not_isValue, ih, Option.map_none]
  | arg x b hs ih => rw [reduce_app_abs, if_neg hs.not_isValue, ih, Option.map_none]

/-- What has no step is a value or stuck. -/
theorem isValue_or_stuck (h : t.reduce = none) : t.isValue = true ∨ t.Stuck := by
  induction t with
  | var x => exact .inr (.var x)
  | abs x b => exact .inl rfl
  | app f a ihf iha =>
    right
    by_cases hf : f.isValue = true
    · -- with a value as argument the term would be contracted, so the argument is stuck
      obtain ⟨x, b, rfl⟩ := isValue_iff.1 hf
      rw [reduce_app_abs] at h
      split_ifs at h with ha
      exact .arg x b ((iha (Option.map_eq_none_iff.1 h)).resolve_left ha)
    · rw [reduce_app_of_not_isValue a hf] at h
      exact .fn a ((ihf (Option.map_eq_none_iff.1 h)).resolve_left hf)

theorem stuck_iff : t.isValue ≠ true ∧ t.reduce = none ↔ t.Stuck := by
  constructor
  · rintro ⟨hv, h⟩
    exact (isValue_or_stuck h).resolve_left hv
  · intro h
    exact ⟨h.not_isValue, h.reduce⟩

/-- **The reducer is the call-by-value relation.**  It takes a term to another one exactly if the rules
derive that step, and it takes no step on a term that is not an abstraction exactly if the term is
stuck. -/
theorem reduce_follows_rules :
    (∀ t u : Term, t.reduce = some u ↔ t.Step u) ∧
      ∀ t : Term, (t.isValue ≠ true ∧ t.reduce = none) ↔ t.Stuck :=
  ⟨fun _ _ => reduce_eq_some_iff, fun _ => stuck_iff⟩

end Term

end CallByValue
