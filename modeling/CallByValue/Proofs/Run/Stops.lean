import CallByValue.Run.Evaluator
import CallByValue.Proofs.Run.Course
import Mathlib.Algebra.Group.Nat.Defs

/-!
# Where a run stops

Four rules stop a run at the `n`-th term of a sequence, tested in this order: the budget does not hold,
the run has been cancelled, the term has no step, `n` is the step limit (`Settings.Stops`).  The first
rule that applies decides what is reported (`Settings.Reports`).

In the loop the limit is tested last and as a bound.  Up to the first term where a rule applies that is
the same, because no number beyond the limit is reached (`Settings.le_maxSteps`); so each decision
follows the rules (`Settings.decision_cases`), and a run ends at the least number where one of them
applies (`Evaluator.run_stops_by_first_rule`).
-/

namespace CallByValue

namespace Settings

/-! ### The rules -/

section Rules

variable (s : Settings) (n : Nat) (u : Term)

/-- The budget is false of the `n`-th term `u`, or it fails. -/
def Refuses : Prop := ∃ b, s.budget = some b ∧ b.judge ⟨n, u.size, u.depth⟩ ≠ .holds

/-- The run has been cancelled by the time the `n`-th term has been observed. -/
def Cancelled : Prop := ∃ c, s.cancelAt = some c ∧ c ≤ n

/-- A rule stops the run at the `n`-th term `u`. -/
def Stops : Prop :=
  s.Refuses n u ∨ s.Cancelled n ∨ u.reduce = none ∨ 0 < s.maxSteps ∧ n = s.maxSteps

/-- The outcome and the error that are reported of a run that stops at the `n`-th term `u`, by the
first rule that applies. -/
inductive Reports : Outcome → Option Halt → Prop
  | budgetSpent {b : Budget} : s.budget = some b → b.judge ⟨n, u.size, u.depth⟩ = .spent →
      Reports .halted (some (.budgetSpent b.source ⟨n, u.size, u.depth⟩))
  | budgetFailed {b : Budget} : s.budget = some b → b.judge ⟨n, u.size, u.depth⟩ = .failed →
      Reports .halted (some (.budgetFailed b.source))
  | cancelled : ¬ s.Refuses n u → s.Cancelled n → Reports .halted (some (.cancelled n))
  | normal : ¬ s.Refuses n u → ¬ s.Cancelled n → u.reduce = none →
      Reports (if u.isValue then .value else .stuck) none
  | stepLimit {v : Term} : ¬ s.Refuses n u → ¬ s.Cancelled n → u.reduce = some v →
      0 < s.maxSteps → n = s.maxSteps → Reports .halted (some (.stepLimit s.maxSteps))

end Rules

variable {s : Settings} {n : Nat} {t u : Term} {o : Outcome} {h? : Option Halt}

/-- There is an error exactly if the run was halted. -/
theorem Reports.eq_none_iff (h : s.Reports n u o h?) : h? = none ↔ o ≠ .halted := by
  cases h with
  | budgetSpent | budgetFailed | cancelled | stepLimit => simp
  | normal => by_cases hv : u.isValue = true <;> simp [hv]

/-- The limit is reported only where a further step was possible. -/
theorem Reports.exists_step {l : Nat} (h : s.Reports n u o (some (.stepLimit l))) :
    ∃ v, u.reduce = some v := by
  cases h with
  | stepLimit _ _ hv => exact ⟨_, hv⟩

/-- Where only the third rule applies, the term decides the outcome. -/
theorem Reports.eq_of_normal (h : s.Reports n u o h?) (hb : ¬ s.Refuses n u) (hc : ¬ s.Cancelled n)
    (hu : u.reduce = none) : o = if u.isValue then .value else .stuck := by
  cases h with
  | budgetSpent hbudget hjudge => exact absurd ⟨_, hbudget, by simp [hjudge]⟩ hb
  | budgetFailed hbudget hjudge => exact absurd ⟨_, hbudget, by simp [hjudge]⟩ hb
  | cancelled _ hcancelled => exact absurd hcancelled hc
  | normal => rfl
  | stepLimit _ _ hv => exact absurd (hu.symm.trans hv) (by simp)

/-- A run gets stuck only at a term that is no value and has no step. -/
theorem Reports.of_stuck (h : s.Reports n u o h?) (ho : o = .stuck) :
    u.reduce = none ∧ u.isValue ≠ true := by
  cases h with
  | budgetSpent | budgetFailed | cancelled | stepLimit => simp at ho
  | normal _ _ hu =>
    refine ⟨hu, fun hv => ?_⟩
    simp [hv] at ho

/-! ### Decisions -/

theorem objection?_eq_none (h : ¬ s.Refuses n u) : s.objection? (Event.of n u) = none := by
  unfold objection?
  cases hb : s.budget with
  | none => rfl
  | some b =>
    have hholds : b.judge ⟨n, u.size, u.depth⟩ = .holds := by
      by_contra hne
      exact h ⟨b, hb, hne⟩
    simp only [Option.bind_some, Event.reading, Event.of, hholds]

theorem cancelledAt_iff : s.cancelledAt n = true ↔ s.Cancelled n := by
  simp [cancelledAt, Cancelled, Option.any_eq_true]

/-- A run that stops at the `n`-th term in the way `e` reports what the rules say. -/
def ReportsEnding (s : Settings) (n : Nat) (u : Term) (e : Ending) : Prop :=
  ∀ r : Run, r.last = Event.of n u → r.ending = e → s.Reports n u r.outcome r.halt?

theorem reportsEnding_halted {h : Halt} (hrep : s.Reports n u .halted (some h)) :
    s.ReportsEnding n u (.halted h) := by
  intro r _ he
  simpa only [Run.outcome, Run.halt?, he] using hrep

theorem reportsEnding_normal (hb : ¬ s.Refuses n u) (hc : ¬ s.Cancelled n) (hu : u.reduce = none) :
    s.ReportsEnding n u .normal := by
  intro r hl he
  have hterm : r.term = u := congrArg Event.term hl
  simpa only [Run.outcome, Run.halt?, he, hterm] using Reports.normal hb hc hu

/-- A refused term stops the run. -/
theorem Refuses.decision (h : s.Refuses n u) :
    ∃ e, s.decision (Event.of n u) = .stop e ∧ s.ReportsEnding n u e := by
  obtain ⟨b, hb, hjudge⟩ := h
  have hread : b.judge (Event.of n u).reading = b.judge ⟨n, u.size, u.depth⟩ := rfl
  cases hv : b.judge ⟨n, u.size, u.depth⟩ with
  | holds => exact absurd hv hjudge
  | spent =>
    refine ⟨_, ?_, reportsEnding_halted (.budgetSpent hb hv)⟩
    simp only [Settings.decision, objection?, hb, Option.bind_some, hread, hv]
    rfl
  | failed =>
    refine ⟨_, ?_, reportsEnding_halted (.budgetFailed hb hv)⟩
    simp only [Settings.decision, objection?, hb, Option.bind_some, hread, hv]

/-- Where the budget holds, the other rules are tested in turn. -/
theorem decision_of_not_refuses (h : ¬ s.Refuses n u) :
    s.decision (Event.of n u) =
      if s.cancelledAt n then .stop (.halted (.cancelled n))
      else match u.reduce with
        | none => .stop .normal
        | some v => if s.limitReached n then .stop (.halted (.stepLimit s.maxSteps)) else .go v := by
  rw [decision, objection?_eq_none h]
  rfl

/-- Each decision follows the rules, up to the step limit: the run goes on where none applies, and else
it stops and reports the first that does. -/
theorem decision_cases (hl : 0 < s.maxSteps → n ≤ s.maxSteps) :
    (¬ s.Stops n u ∧ ∃ w, s.decision (Event.of n u) = .go w) ∨
      (s.Stops n u ∧ ∃ e, s.decision (Event.of n u) = .stop e ∧ s.ReportsEnding n u e) := by
  by_cases hb : s.Refuses n u
  · exact .inr ⟨.inl hb, hb.decision⟩
  rw [decision_of_not_refuses hb]
  by_cases hc : s.Cancelled n
  · rw [if_pos (cancelledAt_iff.2 hc)]
    exact .inr ⟨.inr (.inl hc), _, rfl, reportsEnding_halted (.cancelled hb hc)⟩
  rw [if_neg (mt cancelledAt_iff.1 hc)]
  cases hu : u.reduce with
  | none => exact .inr ⟨.inr (.inr (.inl hu)), _, rfl, reportsEnding_normal hb hc hu⟩
  | some v =>
    -- the number is not beyond the limit, so it has reached the limit only if it is the limit
    have hlim : s.limitReached n = true ↔ 0 < s.maxSteps ∧ n = s.maxSteps := by
      simp only [limitReached, Bool.and_eq_true, decide_eq_true_eq]
      omega
    by_cases hreached : s.limitReached n = true
    · obtain ⟨hpos, hn⟩ := hlim.1 hreached
      refine .inr ⟨.inr (.inr (.inr ⟨hpos, hn⟩)), _, if_pos hreached, ?_⟩
      exact reportsEnding_halted (.stepLimit hb hc hu hpos hn)
    · refine .inl ⟨?_, v, if_neg hreached⟩
      rintro (h | h | h | h)
      · exact hb h
      · exact hc h
      · rw [hu] at h
        exact absurd h (by simp)
      · exact hreached (hlim.2 h)

/-! ### Runs -/

/-- A run that is stopped nowhere before has not passed the limit. -/
theorem le_maxSteps (hu : t.after n = some u)
    (hbefore : ∀ m < n, ∀ v, t.after m = some v → ¬ s.Stops m v) (hpos : 0 < s.maxSteps) :
    n ≤ s.maxSteps := by
  refine Term.le_of_forall_ne hu fun m hm v hv heq => ?_
  exact hbefore m hm v hv (.inr (.inr (.inr ⟨hpos, heq⟩)))

theorem decision_go_of_not_stops (hu : t.after n = some u)
    (hbefore : ∀ m ≤ n, ∀ v, t.after m = some v → ¬ s.Stops m v) :
    ∃ w, s.decision (Event.of n u) = .go w := by
  have hl := le_maxSteps hu fun m hm => hbefore m (Nat.le_of_lt hm)
  rcases decision_cases hl with ⟨-, hgo⟩ | ⟨hstops, -⟩
  · exact hgo
  · exact absurd hstops (hbefore n (Nat.le_refl n) u hu)

/-- A run that is stopped reports what the rules say. -/
theorem Course.reports {bound k : Nat} {e : Ending} (h : s.Course bound t k u e)
    (hstop : s.decision (Event.of k u) = .stop e) :
    s.Reports k u (Run.along t k u e).outcome (Run.along t k u e).halt? := by
  rcases decision_cases h.le_maxSteps with ⟨-, w, hgo⟩ | ⟨-, e', hstop', hrep⟩
  · rw [hgo] at hstop
    exact absurd hstop (by simp)
  · obtain rfl : e' = e := Decision.stop.inj (hstop'.symm.trans hstop)
    exact hrep _ rfl rfl

/-- The run ends at the least number where a rule applies. -/
theorem exists_course_of_isLeast {bound : Nat} (hle : n ≤ bound)
    (hn : IsLeast {m | ∃ v, t.after m = some v ∧ s.Stops m v} n) :
    ∃ u e, s.Course bound t n u e ∧ s.runFrom bound [] 0 t = .along t n u e ∧
      s.Reports n u (Run.along t n u e).outcome (Run.along t n u e).halt? := by
  obtain ⟨⟨u, hu, hstops⟩, hleast⟩ := hn
  have hbefore : ∀ m < n, ∀ v, t.after m = some v → ¬ s.Stops m v := by
    intro m hm v hv hs
    exact Nat.not_le_of_lt hm (hleast ⟨v, hv, hs⟩)
  rcases decision_cases (le_maxSteps hu hbefore) with ⟨hnot, -⟩ | ⟨-, e, hstop, -⟩
  · exact absurd hstops hnot
  · obtain ⟨k, v, e', hcourse, hrun⟩ := s.exists_course bound t
    obtain ⟨rfl, rfl, rfl⟩ := hcourse.eq_of_stop hle hu hstop fun m hm w hw =>
      decision_go_of_not_stops hw fun m' hm' => hbefore m' (Nat.lt_of_le_of_lt hm' hm)
    exact ⟨v, e', hcourse, hrun, hcourse.reports hstop⟩

/-- Where no rule ever applies, the run has no end. -/
theorem ending_of_not_stops {bound : Nat}
    (h : ∀ m ≤ bound, ∀ v, t.after m = some v → ¬ s.Stops m v) :
    (s.runFrom bound [] 0 t).ending = .unfinished := by
  obtain ⟨k, u, e, hcourse, hrun⟩ := s.exists_course bound t
  obtain ⟨w, hw⟩ := decision_go_of_not_stops hcourse.reached fun m hm =>
    h m (Nat.le_trans hm hcourse.le_bound)
  rcases hcourse.ends with hstop | ⟨rfl, -, -⟩
  · rw [hw] at hstop
    exact absurd hstop (by simp)
  · rw [hrun, Run.along]

end Settings

/-- **A run stops exactly where its rules say.**  If `n` is the least number, below `2 ^ 64`, of a term
in the sequence where a rule applies, the run ends at that term after `n` steps, its peaks are the
greatest size and depth of the terms up to there, and the first rule that applies decides the outcome
and the error.  So the step limit is reported only where a further step was possible, and there is no
error exactly if the run was not halted.  If there is no such number, the run does not end. -/
theorem Evaluator.run_stops_by_first_rule (ev : Evaluator) (t : Term) (cancelAt : Option Nat) :
    let s := ev.settings cancelAt
    let r := (ev.run t cancelAt).1
    (∀ n < 2 ^ 64, IsLeast {m | ∃ v, t.after m = some v ∧ s.Stops m v} n →
      ∃ u, t.after n = some u ∧ r.term = u ∧ r.stats.steps = n ∧
        IsGreatest {j | ∃ m ≤ n, ∃ v, t.after m = some v ∧ v.size = j} r.stats.peakSize ∧
        IsGreatest {j | ∃ m ≤ n, ∃ v, t.after m = some v ∧ v.depth = j} r.stats.peakDepth ∧
        s.Reports n u r.outcome r.halt? ∧
        (∀ l, r.halt? = some (.stepLimit l) → ∃ v, u.reduce = some v) ∧
        (r.halt? = none ↔ r.outcome ≠ .halted)) ∧
    ((∀ n < 2 ^ 64, ∀ v, t.after n = some v → ¬ s.Stops n v) → r.ending = .unfinished) := by
  intro s r
  refine ⟨fun n hlt hn => ?_, fun h => ?_⟩
  · have hbound : n ≤ Settings.horizon := Nat.le_of_lt_succ hlt
    obtain ⟨u, e, hcourse, hrun, hreport⟩ := Settings.exists_course_of_isLeast hbound hn
    have hr : r = .along t n u e := hrun
    obtain ⟨hsteps, hsize, hdepth⟩ := hcourse.stats
    rw [← hr] at hreport hsteps hsize hdepth
    have hterm : r.term = u := by
      rw [hr]
      rfl
    refine ⟨u, hcourse.reached, hterm, hsteps, hsize, hdepth, hreport, ?_, hreport.eq_none_iff⟩
    intro l hl
    rw [hl] at hreport
    exact hreport.exists_step
  · exact Settings.ending_of_not_stops fun n hn => h n (Nat.lt_succ_of_le hn)

/-- A limit of one step on a term with one step: the value is reached and no error is reported.  And a
term that reduces to itself, without a limit. -/
theorem Evaluator.identity_stops_and_loop_does_not :
    let identity := Term.abs (utf8 "x") (.var (utf8 "x"))
    let t := Term.app identity identity
    let ev : Evaluator := { maxSteps := 1 }
    let r := (ev.run t none).1
    let double := Term.abs (utf8 "x") (.app (.var (utf8 "x")) (.var (utf8 "x")))
    let loop := Term.app double double
    (IsLeast {m | ∃ v, t.after m = some v ∧ (ev.settings none).Stops m v} 1 ∧ r.term = identity ∧
      r.stats.steps = 1 ∧ (ev.settings none).Reports 1 identity r.outcome r.halt?) ∧
    (∀ n < 2 ^ 64, ∀ v, loop.after n = some v → ¬ (Evaluator.settings {} none).Stops n v) ∧
    (Evaluator.run {} loop none).1.ending = .unfinished := by
  intro identity t ev r double loop
  have hstep : t.after 1 = some identity := by decide +kernel
  have hleast : IsLeast {m | ∃ v, t.after m = some v ∧ (ev.settings none).Stops m v} 1 := by
    refine ⟨⟨identity, hstep, .inr (.inr (.inl rfl))⟩, ?_⟩
    rintro m ⟨v, hv, hstops⟩
    by_contra hm
    obtain rfl : m = 0 := by omega
    obtain rfl : t = v := Option.some.inj hv
    rcases hstops with ⟨b, hb, -⟩ | ⟨c, hc, -⟩ | hnone | ⟨-, hlim⟩
    · exact absurd hb (by simp [ev, settings])
    · exact absurd hc (by simp [settings])
    · exact absurd (hnone.symm.trans hstep) (by simp)
    · exact absurd hlim (by simp [ev, settings])
  have hself : loop.reduce = some loop := by decide +kernel
  have hloop : ∀ n, loop.after n = some loop := by
    intro n
    induction n with
    | zero => rfl
    | succ n ih => rw [Term.after_succ, ih, Option.bind_some, hself]
  have hnever : ∀ n < 2 ^ 64, ∀ v, loop.after n = some v →
      ¬ (Evaluator.settings {} none).Stops n v := by
    intro n _ v hv
    obtain rfl : loop = v := Option.some.inj ((hloop n).symm.trans hv)
    rintro (⟨b, hb, -⟩ | ⟨c, hc, -⟩ | hnone | ⟨hpos, -⟩)
    · exact absurd hb (by simp [settings])
    · exact absurd hc (by simp [settings])
    · exact absurd (hnone.symm.trans hself) (by simp)
    · exact absurd hpos (by simp [settings])
  obtain ⟨u, hu, hterm, hsteps, -, -, hreport, -, -⟩ :=
    (run_stops_by_first_rule ev t none).1 1 (by decide) hleast
  obtain rfl : identity = u := Option.some.inj (hstep.symm.trans hu)
  exact ⟨⟨hleast, hterm, hsteps, hreport⟩, hnever, (run_stops_by_first_rule {} loop none).2 hnever⟩

end CallByValue
