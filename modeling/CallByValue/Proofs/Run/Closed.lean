import CallByValue.Proofs.Run.Stops
import CallByValue.Proofs.Term.Step
import CallByValue.Proofs.Term.Subst

/-!
# Runs of closed terms

A term is closed if no name is free in it.  A step frees no name (`Term.isFree_of_reduce`), and a closed
term without a step is an abstraction (`Term.isValue_of_closed`), because the only other terms without
one are stuck on a variable, which is free in them (`Term.Stuck.exists_isFree`).  So a run of a closed
term sees only closed terms, and it does not get stuck (`Evaluator.run_closed`).
-/

namespace CallByValue

namespace Term

variable {t u : Term} {n : Nat} {x : Name}

theorem freeVars_eq_nil_iff : t.freeVars = [] ↔ ∀ x, t.isFree x ≠ true := by
  simp only [List.eq_nil_iff_forall_not_mem, mem_freeVars, ne_eq]

/-! ### Preservation -/

/-- What is free after a step was free before. -/
theorem isFree_of_reduce (h : t.reduce = some u) (hx : u.isFree x = true) : t.isFree x = true := by
  induction h using reduce_induction with
  | contract y b w hw =>
    rw [isFree_app, isFree_abs]
    rcases (isFree_subst b w y x).1 hx with ⟨hb, hne⟩ | ⟨-, hw⟩
    · exact .inl ⟨Ne.symm hne, hb⟩
    · exact .inr hw
  | fn f f' a _ ih =>
    rw [isFree_app] at hx ⊢
    exact hx.imp_left ih
  | arg y b a a' _ ih =>
    rw [isFree_app] at hx ⊢
    exact hx.imp_right ih

theorem isFree_of_after (h : t.after n = some u) (hx : u.isFree x = true) : t.isFree x = true := by
  induction n generalizing u with
  | zero =>
    obtain rfl : t = u := Option.some.inj h
    exact hx
  | succ n ih =>
    obtain ⟨v, hv, hstep⟩ := Option.bind_eq_some_iff.1 h
    exact ih hv (isFree_of_reduce hstep hx)

theorem closed_of_after (hclosed : t.freeVars = []) (h : t.after n = some u) : u.freeVars = [] := by
  rw [freeVars_eq_nil_iff] at hclosed ⊢
  exact fun x hx => hclosed x (isFree_of_after h hx)

/-! ### Progress -/

/-- The variable that blocks a term is free in it. -/
theorem Stuck.exists_isFree (h : t.Stuck) : ∃ x, t.isFree x = true := by
  induction h with
  | var x => exact ⟨x, isFree_var.2 rfl⟩
  | fn a _ ih =>
    obtain ⟨x, hx⟩ := ih
    exact ⟨x, isFree_app.2 (.inl hx)⟩
  | arg y b _ ih =>
    obtain ⟨x, hx⟩ := ih
    exact ⟨x, isFree_app.2 (.inr hx)⟩

/-- A closed term without a step is a value. -/
theorem isValue_of_closed (hclosed : ∀ x, t.isFree x ≠ true) (h : t.reduce = none) :
    t.isValue = true := by
  rcases isValue_or_stuck h with hvalue | hstuck
  · exact hvalue
  · obtain ⟨x, hx⟩ := hstuck.exists_isFree
    exact absurd hx (hclosed x)

end Term

/-! ### Runs -/

namespace Settings

variable {s : Settings} {bound k : Nat} {t u : Term} {e : Ending}

/-- A run of a closed term is not stuck at its end. -/
theorem Course.outcome_ne_stuck (h : s.Course bound t k u e) (hclosed : t.freeVars = []) :
    (Run.along t k u e).outcome ≠ .stuck := by
  intro hstuck
  rcases h.ends with hstop | ⟨rfl, -, -⟩
  · obtain ⟨hnone, hvalue⟩ := (h.reports hstop).of_stuck hstuck
    have hu := Term.freeVars_eq_nil_iff.1 (Term.closed_of_after hclosed h.reached)
    exact hvalue (Term.isValue_of_closed hu hnone)
  · simp [Run.outcome, Run.along] at hstuck

end Settings

/-- **Closed terms do not get stuck.**  A run of a closed term, whatever may stop it, observes only
closed terms and does not end stuck.  This rests on two facts about single steps: no step frees a name,
and a closed term without a step is an abstraction. -/
theorem Evaluator.run_closed :
    (∀ t : Term, t.freeVars = [] → ∀ (ev : Evaluator) (cancelAt : Option Nat),
      (∀ e ∈ (ev.run t cancelAt).1.events, e.term.freeVars = []) ∧
        (ev.run t cancelAt).1.outcome ≠ .stuck) ∧
    (∀ t u : Term, t.reduce = some u → u.freeVars ⊆ t.freeVars) ∧
    ∀ t : Term, t.freeVars = [] → t.reduce = none → ∃ x b, t = .abs x b := by
  refine ⟨fun t hclosed ev cancelAt => ?_, fun t u h x hx => ?_, fun t hclosed h => ?_⟩
  · obtain ⟨k, u, e, hcourse, hrun⟩ :=
      (ev.settings cancelAt).exists_course Settings.horizon t
    have hr : (ev.run t cancelAt).1 = .along t k u e := hrun
    rw [hr, hcourse.events]
    refine ⟨fun d hd => ?_, hcourse.outcome_ne_stuck hclosed⟩
    obtain ⟨i, -, v, hv, rfl⟩ := Term.mem_trail.1 hd
    exact Term.closed_of_after hclosed hv
  · exact Term.mem_freeVars.2 (Term.isFree_of_reduce h (Term.mem_freeVars.1 hx))
  · exact Term.isValue_iff.1 (Term.isValue_of_closed (Term.freeVars_eq_nil_iff.1 hclosed) h)

/-- A closed term that copies its argument, under a limit and a budget. -/
theorem Evaluator.run_closed_double :
    let identity := Term.abs (utf8 "y") (.var (utf8 "y"))
    let t := Term.app (.abs (utf8 "x") (.app (.var (utf8 "x")) (.var (utf8 "x")))) identity
    let small : Budget := ⟨utf8 "size < 9", fun r => if r.size < 9 then .holds else .spent⟩
    let r := (Evaluator.run { maxSteps := 5, budget := some small } t none).1
    (t.freeVars = [] ∧ (∀ e ∈ r.events, e.term.freeVars = []) ∧ r.outcome ≠ .stuck) ∧
      (t.reduce = some (.app identity identity) ∧
        (Term.app identity identity).freeVars ⊆ t.freeVars) ∧
      (identity.freeVars = [] ∧ identity.reduce = none ∧ ∃ x b, identity = .abs x b) := by
  intro identity t small r
  obtain ⟨hrun, hstep, hvalue⟩ := run_closed
  have hclosed : t.freeVars = [] := by decide +kernel
  have hreduce : t.reduce = some (.app identity identity) := by decide +kernel
  have hidentity : identity.freeVars = [] := by decide +kernel
  exact ⟨⟨hclosed, hrun t hclosed _ none⟩, ⟨hreduce, hstep _ _ hreduce⟩,
    hidentity, rfl, hvalue identity hidentity rfl⟩

end CallByValue
