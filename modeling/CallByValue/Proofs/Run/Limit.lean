import CallByValue.Run.Evaluator
import CallByValue.Proofs.Run.Course
import Mathlib.Algebra.Group.Nat.Defs

/-!
# Runs under a step limit

Under a step limit alone a run ends in one of two ways: at the normal form, where the sequence of its
term has one within the limit, or else at the limit, where a further step is possible
(`Settings.Course.of_limit`).  Conversely the sequence decides which of the two it is
(`Settings.course_of_normal`, `Settings.course_of_step`).

**Main theorem** (`Evaluator.run_resumes`): a run that was stopped by its limit can be resumed.  The two
partial runs make up the run under the sum of the limits: the second one starts at the very term where
the first one stopped, so the step that was found there but not taken is the first one of the second
run, and the term at the seam is seen by both.
-/

namespace CallByValue

namespace Settings

variable {t u v : Term} {bound limit k n : Nat} {e : Ending}

/-! ### How a limit ends a run -/

/-- Under a limit alone a run stops at a normal form and at the limit. -/
theorem decision_of_limit (limit n : Nat) (u : Term) :
    decision { maxSteps := limit } (Event.of n u) =
      match u.reduce with
      | none => .stop .normal
      | some v =>
        if limitReached { maxSteps := limit } n then .stop (.halted (.stepLimit limit))
        else .go v := rfl

theorem limitReached_iff : limitReached { maxSteps := limit } n = true ↔ 0 < limit ∧ limit ≤ n := by
  simp only [limitReached, Bool.and_eq_true, decide_eq_true_eq]

/-- Below the limit a run goes on to every term that the sequence has. -/
theorem decision_go_of_limit (hu : t.after k = some u) (hlimit : limit = 0 ∨ k ≤ limit) :
    ∀ m < k, ∀ w, t.after m = some w →
      ∃ w', decision { maxSteps := limit } (Event.of m w) = .go w' := by
  intro m hm w hw
  obtain ⟨w', hw'⟩ := Term.exists_after_of_le hu (Nat.succ_le_of_lt hm)
  rw [Term.after_succ, hw, Option.bind_some] at hw'
  refine ⟨w', ?_⟩
  rw [decision_of_limit, hw']
  refine if_neg ?_
  rw [limitReached_iff]
  omega

/-- How a run under a limit alone ends: without a further step, or at the limit with one. -/
theorem Course.of_limit (h : Course { maxSteps := limit } bound t k u e) (hpos : 0 < limit)
    (hbound : limit ≤ bound) :
    (k ≤ limit ∧ u.reduce = none ∧ e = .normal) ∨
      (k = limit ∧ (∃ v, u.reduce = some v) ∧ e = .halted (.stepLimit limit)) := by
  have hle : k ≤ limit := h.le_maxSteps hpos
  have hends := h.ends
  rw [decision_of_limit] at hends
  cases hu : u.reduce with
  | none =>
    simp only [hu, Decision.stop.injEq, reduceCtorEq, exists_false, and_false, or_false] at hends
    exact .inl ⟨hle, rfl, hends.symm⟩
  | some v =>
    by_cases hk : k = limit
    · have hreached := limitReached_iff.2 ⟨hpos, hk.ge⟩
      simp only [hu, if_pos hreached, Decision.stop.injEq, reduceCtorEq, exists_false, and_false,
        or_false] at hends
      exact .inr ⟨hk, ⟨v, rfl⟩, hends.symm⟩
    · -- below the limit the run goes on, and there is room for the step
      have hbelow := mt limitReached_iff.1 fun hreached => hk (Nat.le_antisymm hle hreached.2)
      simp only [hu, if_neg hbelow, reduceCtorEq, false_or] at hends
      omega

/-- A run comes to the normal form that its limit allows. -/
theorem course_of_normal (hu : t.after k = some u) (hnone : u.reduce = none)
    (hlimit : limit = 0 ∨ k ≤ limit) (hbound : k ≤ bound) :
    Course { maxSteps := limit } bound t k u .normal ∧
      runFrom { maxSteps := limit } bound [] 0 t = .along t k u .normal := by
  refine course_of_stop hbound hu ?_ (decision_go_of_limit hu hlimit)
  rw [decision_of_limit, hnone]

/-- A run stops at its limit if it could go on there. -/
theorem course_of_step (hu : t.after limit = some u) (hv : u.reduce = some v) (hpos : 0 < limit)
    (hbound : limit ≤ bound) :
    Course { maxSteps := limit } bound t limit u (.halted (.stepLimit limit)) ∧
      runFrom { maxSteps := limit } bound [] 0 t =
        .along t limit u (.halted (.stepLimit limit)) := by
  refine course_of_stop hbound hu ?_ (decision_go_of_limit hu (.inr (Nat.le_refl limit)))
  rw [decision_of_limit, hv]
  exact if_pos (limitReached_iff.2 ⟨hpos, Nat.le_refl limit⟩)

/-! ### Runs that follow each other -/

/-- The terms up to a place beyond `u` are those up to `u` and those of the sequence of `u`, so a peak
over all of them is the greater one of two peaks. -/
theorem isGreatest_max {μ : Term → Nat} {a x y : Nat} (hu : t.after a = some u)
    (hx : IsGreatest {j | ∃ m ≤ a, ∃ v, t.after m = some v ∧ μ v = j} x)
    (hy : IsGreatest {j | ∃ m ≤ k, ∃ v, u.after m = some v ∧ μ v = j} y) :
    IsGreatest {j | ∃ m ≤ a + k, ∃ v, t.after m = some v ∧ μ v = j} (max x y) := by
  have hunion : {j | ∃ m ≤ a + k, ∃ v, t.after m = some v ∧ μ v = j} =
      {j | ∃ m ≤ a, ∃ v, t.after m = some v ∧ μ v = j} ∪
        {j | ∃ m ≤ k, ∃ v, u.after m = some v ∧ μ v = j} := by
    ext j
    constructor
    · rintro ⟨m, hm, v, hv, rfl⟩
      rcases Nat.le_total m a with hle | hle
      · exact .inl ⟨m, hle, v, hv, rfl⟩
      · obtain ⟨d, rfl⟩ := Nat.exists_eq_add_of_le hle
        exact .inr ⟨d, by omega, v, (Term.after_add hu d).symm.trans hv, rfl⟩
    · rintro (⟨m, hm, v, hv, rfl⟩ | ⟨d, hd, v, hv, rfl⟩)
      · exact ⟨m, by omega, v, hv, rfl⟩
      · exact ⟨a + d, by omega, v, (Term.after_add hu d).trans hv, rfl⟩
  rw [hunion]
  exact hx.union hy

/-- The statistics of a run that passes through `u`, from those of the run that ends there and of the
run that starts there. -/
theorem Course.stats_add {s₁ s₂ s₃ : Settings} {b₁ b₂ b₃ a : Nat} {e₁ e₂ e₃ : Ending}
    (hfirst : s₁.Course b₁ t a u e₁) (hsecond : s₂.Course b₂ u k v e₂)
    (hwhole : s₃.Course b₃ t (a + k) v e₃) :
    let first := (Run.along t a u e₁).stats
    let second := (Run.along u k v e₂).stats
    (Run.along t (a + k) v e₃).stats =
      ⟨second.steps + a, max first.peakSize second.peakSize,
        max first.peakDepth second.peakDepth⟩ := by
  intro first second
  obtain ⟨-, hsize₁, hdepth₁⟩ := hfirst.stats
  obtain ⟨hsteps₂, hsize₂, hdepth₂⟩ := hsecond.stats
  obtain ⟨hsteps, hsize, hdepth⟩ := hwhole.stats
  have hpeakSize := hsize.unique (isGreatest_max hfirst.reached hsize₁ hsize₂)
  have hpeakDepth := hdepth.unique (isGreatest_max hfirst.reached hdepth₁ hdepth₂)
  have hcount : (Run.along t (a + k) v e₃).stats.steps = second.steps + a := by
    rw [hsteps, show second.steps = k from hsteps₂, Nat.add_comm]
  rw [← hcount, ← hpeakSize, ← hpeakDepth]

end Settings

/-- The run `whole` under the limit `a + b` is the run `first`, which the limit `a` stopped, and the run
`second` under the limit `b` of the term that `first` came to. -/
structure Run.Resumes (a b : Nat) (first second whole : Run) : Prop where
  /-- The resumed run comes to the same term. -/
  term : whole.term = second.term
  /-- It ends in the same way. -/
  outcome : whole.outcome = second.outcome
  /-- It has the same error, apart from the limit that is named. -/
  error : whole.ending = .normal ∧ second.ending = .normal ∨
    whole.ending = .halted (.stepLimit (a + b)) ∧ second.ending = .halted (.stepLimit b)
  /-- All steps are counted. -/
  steps : whole.stats.steps = second.stats.steps + a
  /-- The greatest size is that of the two runs. -/
  peakSize : whole.stats.peakSize = max first.stats.peakSize second.stats.peakSize
  /-- The greatest depth is that of the two runs. -/
  peakDepth : whole.stats.peakDepth = max first.stats.peakDepth second.stats.peakDepth

namespace Settings

variable {t u : Term} {a b : Nat}

/-- The run that starts where another one was stopped by its limit. -/
theorem resumes_of_step {w : Term} (hu : t.after a = some u) (hw : u.reduce = some w) (ha : 0 < a)
    (hb : 0 < b) (hab : a + b ≤ horizon) :
    Run.Resumes a b (run { maxSteps := a } t) (run { maxSteps := b } u)
      (run { maxSteps := a + b } t) := by
  have hbound : a ≤ horizon := by omega
  obtain ⟨hfirst, hrun₁⟩ := course_of_step hu hw ha hbound
  obtain ⟨k, v, e, hsecond, hrun₂⟩ := exists_course { maxSteps := b } horizon u
  -- the second run decides how the whole run ends
  rcases hsecond.of_limit hb (by omega) with ⟨hk, hnone, rfl⟩ | ⟨rfl, ⟨w', hw'⟩, rfl⟩
  · have hv : t.after (a + k) = some v := (Term.after_add hu k).trans hsecond.reached
    have hlimit : a + b = 0 ∨ a + k ≤ a + b := by omega
    have hreach : a + k ≤ horizon := by omega
    obtain ⟨hwhole, hrun⟩ := course_of_normal hv hnone hlimit hreach
    have hstats := hfirst.stats_add hsecond hwhole
    unfold Settings.run
    rw [hrun, hrun₁, hrun₂]
    exact ⟨rfl, rfl, .inl ⟨rfl, rfl⟩, congrArg Stats.steps hstats, congrArg Stats.peakSize hstats,
      congrArg Stats.peakDepth hstats⟩
  · have hv : t.after (a + k) = some v := (Term.after_add hu k).trans hsecond.reached
    obtain ⟨hwhole, hrun⟩ := course_of_step hv hw' (by omega) hab
    have hstats := hfirst.stats_add hsecond hwhole
    unfold Settings.run
    rw [hrun, hrun₁, hrun₂]
    exact ⟨rfl, rfl, .inr ⟨rfl, rfl⟩, congrArg Stats.steps hstats, congrArg Stats.peakSize hstats,
      congrArg Stats.peakDepth hstats⟩

end Settings

/-- **A limited run can be resumed.**  Without budget or cancellation, a run that the limit `a` stopped
at the term `u` and the run of `u` under the limit `b` make up the run under the limit `a + b`.  A run
that ended by itself under the limit `a` is the run under every higher limit and without one. -/
theorem Evaluator.run_resumes (ev : Evaluator) (hbudget : ev.budget = none) (t : Term) {a b : Nat}
    (ha : 1 ≤ a) (hb : 1 ≤ b) (hab : a + b < 2 ^ 64) :
    let run (limit : Nat) (t : Term) : Run := ({ ev with maxSteps := limit }.run t none).1
    (∀ l, (run a t).halt? = some (.stepLimit l) →
      Run.Resumes a b (run a t) (run b (run a t).term) (run (a + b) t)) ∧
    ((run a t).halt? = none →
      (run a t).ending = .normal ∧ run (a + b) t = run a t ∧ run 0 t = run a t) := by
  intro run
  have hrun (limit : Nat) (t : Term) : run limit t = Settings.run { maxSteps := limit } t := by
    show Settings.run { maxSteps := limit, budget := ev.budget } t = _
    rw [hbudget]
  have hhorizon : a + b ≤ Settings.horizon := Nat.le_of_lt_succ hab
  obtain ⟨k, u, e, hcourse, hfirst⟩ :=
    Settings.exists_course { maxSteps := a } Settings.horizon t
  have hfirst' : run a t = .along t k u e := (hrun a t).trans hfirst
  rcases hcourse.of_limit ha (by omega) with ⟨hk, hnone, rfl⟩ | ⟨rfl, ⟨w, hw⟩, rfl⟩
  · refine ⟨fun l hl => ?_, fun _ => ?_⟩
    · rw [hfirst'] at hl
      exact absurd hl (by simp [Run.halt?, Run.along])
    · have hsame (limit : Nat) (hlimit : limit = 0 ∨ k ≤ limit) : run limit t = run a t := by
        rw [hfirst', hrun]
        exact (Settings.course_of_normal hcourse.reached hnone hlimit hcourse.le_bound).2
      exact ⟨by rw [hfirst', Run.along], hsame (a + b) (.inr (by omega)), hsame 0 (.inl rfl)⟩
  · refine ⟨fun l _ => ?_, fun hl => ?_⟩
    · have hterm : (run k t).term = u := by
        rw [hfirst']
        rfl
      rw [hterm, hrun, hrun, hrun]
      exact Settings.resumes_of_step hcourse.reached hw ha hb hhorizon
    · rw [hfirst'] at hl
      exact absurd hl (by simp [Run.halt?, Run.along])

/-- A term of three steps that is stopped after the first one, by an evaluator that keeps a trace, and
its run to the value. -/
theorem Evaluator.run_resumes_nested_redexes :
    let identity (x : Text) : Term := .abs x (.var x)
    let const := Term.abs (utf8 "x") (.abs (utf8 "y") (.var (utf8 "x")))
    let t := Term.app (.app const (identity (utf8 "a")))
      (.app (identity (utf8 "z")) (identity (utf8 "b")))
    let ev : Evaluator := enableTrace {} 2
    let run (limit : Nat) (t : Term) : Run := ({ ev with maxSteps := limit }.run t none).1
    ((run 1 t).halt? = some (.stepLimit 1) ∧
      Run.Resumes 1 3 (run 1 t) (run 3 (run 1 t).term) (run (1 + 3) t)) ∧
    ((run 3 t).halt? = none ∧ run (3 + 1) t = run 3 t ∧ run 0 t = run 3 t) := by
  intro identity const t ev run
  have hstopped : (run 1 t).halt? = some (.stepLimit 1) := by decide +kernel
  have hended : (run 3 t).halt? = none := by decide +kernel
  have hresumes := (run_resumes ev rfl t (a := 1) (b := 3) (by omega) (by omega) (by omega)).1
  have hsame := (run_resumes ev rfl t (a := 3) (b := 1) (by omega) (by omega) (by omega)).2
  exact ⟨⟨hstopped, hresumes 1 hstopped⟩, hended, (hsame hended).2⟩

end CallByValue
