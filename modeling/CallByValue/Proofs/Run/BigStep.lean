import CallByValue.Proofs.Run.Stops

/-!
# Runs and big-step evaluation

Call-by-value evaluation in big steps has two rules: an abstraction evaluates to itself, and an
application evaluates to what the body of its function evaluates to, once function and argument are
abstractions and the argument is substituted (`Term.Evaluates`).  A derivation counts the uses of the
second rule.

A step of reduction can be put in front of a derivation, which then has one use more
(`Term.Evaluates.of_reduce`), and a derivation tells how to reduce the function, the argument and the
result one after another (`Term.Evaluates.after`).  So a term evaluates to the value at the end of its
sequence, with as many uses as there are steps (`Term.evaluates_iff`), and that is what a run without a
budget returns (`Evaluator.run_value_iff_evaluates`).
-/

namespace CallByValue

namespace Term

/-- `t.Evaluates v k`: there is a derivation that `t` evaluates to `v`, with `k` uses of the rule for
applications. -/
inductive Evaluates : Term → Term → Nat → Prop
  | abs (x : Name) (b : Term) : Evaluates (abs x b) (abs x b) 0
  | app {f a b c v : Term} {x y : Name} {i j k : Nat} : Evaluates f (.abs x b) i →
      Evaluates a (.abs y c) j → Evaluates (b.subst (.abs y c) x) v k →
      Evaluates (app f a) v (i + j + k + 1)

namespace Evaluates

variable {t u v : Term} {k : Nat}

theorem isValue (h : t.Evaluates v k) : v.isValue = true := by
  induction h with
  | abs x b => rfl
  | app _ _ _ _ _ ih => exact ih

/-- A step in front of a derivation is one more use of the rule for applications. -/
theorem of_reduce (h : t.reduce = some u) (hu : u.Evaluates v k) : t.Evaluates v (k + 1) := by
  induction h using reduce_induction generalizing v k with
  | contract x b w hw =>
    obtain ⟨y, c, rfl⟩ := isValue_iff.1 hw
    have happ := app (abs x b) (abs y c) hu
    rwa [Nat.zero_add] at happ
  | fn f f' a _ ih =>
    cases hu with
    | @app _ _ _ _ _ _ _ i j k hf ha hb =>
      have happ := app (ih hf) ha hb
      rwa [Nat.add_right_comm i 1 j, Nat.add_right_comm (i + j) 1 k] at happ
  | arg x b a a' _ ih =>
    cases hu with
    | @app _ _ _ _ _ _ _ i j k hf ha hb =>
      have happ := app hf (ih ha) hb
      rwa [← Nat.add_assoc i j 1, Nat.add_right_comm (i + j) 1 k] at happ

/-- A sequence that ends in a value is a derivation. -/
theorem of_after (h : t.after k = some v) (hv : v.isValue = true) : t.Evaluates v k := by
  induction k generalizing t with
  | zero =>
    obtain ⟨x, b, rfl⟩ := isValue_iff.1 hv
    obtain rfl : t = .abs x b := Option.some.inj h
    exact abs x b
  | succ k ih =>
    obtain ⟨u, hu⟩ := exists_after_of_le h (Nat.succ_le_succ (Nat.zero_le k))
    rw [after_one] at hu
    rw [after_succ_of_reduce hu] at h
    exact of_reduce hu (ih h)

end Evaluates

/-! ### Sequences in a context -/

theorem after_fn {f f' : Term} {n : Nat} (a : Term) (h : f.after n = some f') :
    (app f a).after n = some (app f' a) := by
  induction n generalizing f' with
  | zero => exact congrArg (fun g => some (app g a)) (Option.some.inj h)
  | succ n ih =>
    obtain ⟨g, hg, hstep⟩ := Option.bind_eq_some_iff.1 h
    rw [after_succ, ih hg]
    exact reduce_fn a hstep

theorem after_arg {a a' : Term} {n : Nat} (x : Name) (b : Term) (h : a.after n = some a') :
    (app (abs x b) a).after n = some (app (abs x b) a') := by
  induction n generalizing a' with
  | zero => exact congrArg (fun c => some (app (abs x b) c)) (Option.some.inj h)
  | succ n ih =>
    obtain ⟨c, hc, hstep⟩ := Option.bind_eq_some_iff.1 h
    rw [after_succ, ih hc]
    exact reduce_arg x b hstep

/-- A derivation reduces the function, then the argument, contracts, and goes on with the result. -/
theorem Evaluates.after {t v : Term} {k : Nat} (h : t.Evaluates v k) : t.after k = some v := by
  induction h with
  | abs x b => rfl
  | @app f a b c v x y i j k _ _ _ ihf iha ihb =>
    have hcontract : (Term.app (.abs x b) (.abs y c)).reduce = some (b.subst (.abs y c) x) :=
      reduce_contract x b rfl
    calc (Term.app f a).after (i + j + k + 1)
        = (Term.app f a).after (i + (j + (k + 1))) := by rw [Nat.add_assoc, Nat.add_assoc]
      _ = (Term.app (.abs x b) a).after (j + (k + 1)) := after_add (after_fn a ihf) _
      _ = (Term.app (.abs x b) (.abs y c)).after (k + 1) := after_add (after_arg x b iha) _
      _ = (b.subst (.abs y c) x).after k := after_succ_of_reduce hcontract k
      _ = some v := ihb

/-- **Evaluation in big steps is reduction to a value**, with as many uses as there are steps. -/
theorem evaluates_iff {t v : Term} {k : Nat} :
    t.Evaluates v k ↔ t.after k = some v ∧ v.isValue = true :=
  ⟨fun h => ⟨h.after, h.isValue⟩, fun h => .of_after h.1 h.2⟩

theorem reduce_eq_none_of_isValue {v : Term} (h : v.isValue = true) : v.reduce = none := by
  obtain ⟨x, b, rfl⟩ := isValue_iff.1 h
  rfl

/-- All derivations for a term have the same number of uses. -/
theorem Evaluates.count_unique {t v w : Term} {k m : Nat} (hv : t.Evaluates v k)
    (hw : t.Evaluates w m) : k = m :=
  Nat.le_antisymm (le_of_reduce_eq_none hw.after (reduce_eq_none_of_isValue hw.isValue) hv.after)
    (le_of_reduce_eq_none hv.after (reduce_eq_none_of_isValue hv.isValue) hw.after)

end Term

/-! ### Runs that end in a value -/

theorem Run.isValue_of_outcome {r : Run} (h : r.outcome = .value) : r.term.isValue = true := by
  unfold Run.outcome at h
  split at h
  · by_contra hnot
    rw [if_neg hnot] at h
    exact absurd h (by simp)
  · exact absurd h (by simp)

namespace Settings

section LimitAlone

variable {t u v : Term} {bound limit k n : Nat}

theorem not_refuses_of_limit : ¬ Refuses { maxSteps := limit } n u := by
  rintro ⟨b, hb, -⟩
  simp at hb

theorem not_cancelled_of_limit : ¬ Cancelled { maxSteps := limit } n := by
  rintro ⟨c, hc, -⟩
  simp at hc

/-- A derivation that is within the limit ends a run where the derivation ends. -/
theorem isLeast_of_evaluates (h : t.Evaluates v k) (hlimit : limit = 0 ∨ k ≤ limit) :
    IsLeast {m | ∃ u, t.after m = some u ∧ Stops { maxSteps := limit } m u} k := by
  have hnone := Term.reduce_eq_none_of_isValue h.isValue
  refine ⟨⟨v, h.after, .inr (.inr (.inl hnone))⟩, ?_⟩
  rintro m ⟨u, hu, hb | hc | hstuck | ⟨hpos, hm⟩⟩
  · exact absurd hb not_refuses_of_limit
  · exact absurd hc not_cancelled_of_limit
  · exact Term.le_of_reduce_eq_none hu hstuck h.after
  · dsimp only at hpos hm
    omega

/-- A run under a limit alone ends in a value exactly if a derivation says so that is within the
limit and within what can be counted. -/
theorem runFrom_value_iff :
    (runFrom { maxSteps := limit } bound [] 0 t).outcome = .value ∧
        (runFrom { maxSteps := limit } bound [] 0 t).term = v ∧
        (runFrom { maxSteps := limit } bound [] 0 t).stats.steps = k ↔
      k ≤ bound ∧ (limit = 0 ∨ k ≤ limit) ∧ t.Evaluates v k := by
  constructor
  · obtain ⟨n, u, e, hcourse, hrun⟩ := exists_course { maxSteps := limit } bound t
    rw [hrun, hcourse.stats.1]
    rintro ⟨hvalue, rfl, rfl⟩
    have hlimit : limit = 0 ∨ n ≤ limit := by
      rcases Nat.eq_zero_or_pos limit with hzero | hpos
      · exact .inl hzero
      · exact .inr (hcourse.le_maxSteps hpos)
    exact ⟨hcourse.le_bound, hlimit, .of_after hcourse.reached (Run.isValue_of_outcome hvalue)⟩
  · rintro ⟨hbound, hlimit, heval⟩
    obtain ⟨u, e, hcourse, hrun, hreport⟩ :=
      exists_course_of_isLeast hbound (isLeast_of_evaluates heval hlimit)
    obtain rfl : v = u := Option.some.inj (heval.after.symm.trans hcourse.reached)
    have houtcome := hreport.eq_of_normal not_refuses_of_limit not_cancelled_of_limit
      (Term.reduce_eq_none_of_isValue heval.isValue)
    rw [if_pos heval.isValue] at houtcome
    rw [hrun]
    exact ⟨houtcome, rfl, hcourse.stats.1⟩

end LimitAlone

end Settings

/-- **The driver computes call-by-value evaluation.**  There is a limit under which a run without
budget or cancellation ends in the value `v` exactly if there is a derivation that the term evaluates to
`v`, and the number of steps is the number of uses of the rule for applications.  A run counts its steps
in 64 bits; the loop, given as many rounds as it needs, does so for every derivation. -/
theorem Evaluator.run_value_iff_evaluates (t v : Term) :
    let run (limit : Nat) : Run := (Evaluator.run { maxSteps := limit } t none).1
    let loop (limit rounds : Nat) : Run := Settings.runFrom { maxSteps := limit } rounds [] 0 t
    ((∃ limit, (run limit).outcome = .value ∧ (run limit).term = v) ↔
      ∃ k < 2 ^ 64, t.Evaluates v k) ∧
    (∀ limit k, (run limit).outcome = .value → (run limit).term = v → t.Evaluates v k →
      (run limit).stats.steps = k) ∧
    ∀ k, (∃ limit rounds, (loop limit rounds).outcome = .value ∧ (loop limit rounds).term = v ∧
      (loop limit rounds).stats.steps = k) ↔ t.Evaluates v k := by
  intro run loop
  refine ⟨⟨?_, ?_⟩, ?_, fun k => ⟨?_, ?_⟩⟩
  · rintro ⟨limit, hvalue, hterm⟩
    obtain ⟨hbound, -, heval⟩ := Settings.runFrom_value_iff.1 ⟨hvalue, hterm, rfl⟩
    exact ⟨_, Nat.lt_succ_of_le hbound, heval⟩
  · rintro ⟨k, hk, heval⟩
    have hbound : k ≤ Settings.horizon := Nat.le_of_lt_succ hk
    obtain ⟨hvalue, hterm, -⟩ := Settings.runFrom_value_iff.2 ⟨hbound, .inl rfl, heval⟩
    exact ⟨0, hvalue, hterm⟩
  · intro limit k hvalue hterm heval
    obtain ⟨-, -, hsteps⟩ := Settings.runFrom_value_iff.1 ⟨hvalue, hterm, rfl⟩
    exact hsteps.count_unique heval
  · rintro ⟨limit, rounds, h⟩
    exact (Settings.runFrom_value_iff.1 h).2.2
  · intro heval
    exact ⟨0, k, Settings.runFrom_value_iff.2 ⟨Nat.le_refl k, .inl rfl, heval⟩⟩

/-- An application whose function and argument are reduced before it is contracted. -/
theorem Evaluator.run_value_of_nested_redexes :
    let identity (x : Text) : Term := .abs x (.var x)
    let const := Term.abs (utf8 "x") (.abs (utf8 "y") (.var (utf8 "x")))
    let t := Term.app (.app const (identity (utf8 "a")))
      (.app (identity (utf8 "z")) (identity (utf8 "b")))
    let r := (Evaluator.run { maxSteps := 3 } t none).1
    t.Evaluates (identity (utf8 "a")) 3 ∧ r.outcome = .value ∧ r.term = identity (utf8 "a") ∧
      r.stats.steps = 3 := by
  intro identity const t r
  have heval : t.Evaluates (identity (utf8 "a")) 3 :=
    Term.evaluates_iff.2 ⟨by decide +kernel, rfl⟩
  have hvalue : r.outcome = .value := by decide +kernel
  have hterm : r.term = identity (utf8 "a") := by decide +kernel
  exact ⟨heval, hvalue, hterm, (run_value_iff_evaluates t _).2.1 3 3 hvalue hterm heval⟩

end CallByValue
