import CallByValue.Proofs.Run.Alpha
import CallByValue.Proofs.Suite.Verdict

/-!
# Verdicts up to bound names

Two cases that differ only in the bound names of their terms (`Case.Alike`) ask the same.  Their runs stay
in lockstep, and their last terms are alpha-equal, so a comparison with alpha-equal outputs comes out the
same on both sides (`Case.Alike.failure?_eq_none_iff`).

**Main theorem** (`Suite.verdict_eq_of_alike`): in accepted suites with the same step limit, run under the
same budget, alike cases have the same verdict, the same outcome and the same number of steps.
-/

namespace CallByValue

namespace Case

/-- Cases that differ only in the bound names of their terms.  Their sources and their names may be
others. -/
structure Alike (c d : Case) : Prop where
  /-- The inputs are alpha-equal terms. -/
  input : ∃ t u, Term.parse c.input = .ok t ∧ Term.parse d.input = .ok u ∧ t.alphaEq u = true
  /-- There are no outputs, or they are alpha-equal terms. -/
  output : (c.output = [] ∧ d.output = []) ∨
    ∃ t u, Term.parse c.output = .ok t ∧ Term.parse d.output = .ok u ∧ t.alphaEq u = true
  /-- The same outcome is expected. -/
  outcome : c.outcome = d.outcome
  /-- The same number of steps is expected. -/
  steps : c.steps = d.steps
  /-- The step limit is the same. -/
  maxSteps : c.maxSteps = d.maxSteps

variable {c d : Case} {r q : Run}

theorem outputTerm_parsed {w : Term} (h : Term.parse c.output = .ok w) :
    c.parsed.outputTerm = some w := by
  have hempty : Term.parse [] = .error ⟨.term, .atEnd 0⟩ := by decide +kernel
  have hne : c.output ≠ [] := by
    intro hnil
    rw [hnil, hempty] at h
    exact absurd h (by simp)
  exact parsed_outputTerm_eq_some.2 ⟨hne, h⟩

theorem Alike.outputTerm (h : c.Alike d) :
    Option.Rel (fun t u => t.alphaEq u = true) c.parsed.outputTerm d.parsed.outputTerm := by
  rcases h.output with ⟨hc, hd⟩ | ⟨t, u, ht, hu, htu⟩
  · simp only [parsed, hc, hd, if_pos]
    exact .none
  · rw [outputTerm_parsed ht, outputTerm_parsed hu]
    exact .some htu

/-- Alpha-equal outputs compare alike with alpha-equal last terms. -/
theorem forall_alphaEq_congr {o p : Option Term} {t u : Term}
    (h : Option.Rel (fun t u => t.alphaEq u = true) o p) (htu : t.alphaEq u = true) :
    (∀ w, o = some w → w.alphaEq t = true) ↔ ∀ w, p = some w → w.alphaEq u = true := by
  cases h with
  | none => simp
  | some hw =>
    simp only [Term.alphaEq_iff_nameless_eq] at hw htu
    simp only [Option.some.injEq, forall_eq', Term.alphaEq_iff_nameless_eq, hw, htu]

theorem Alike.normalFailure?_eq_none_iff (h : c.Alike d) (hrun : r.Alike q) :
    c.parsed.normalFailure? r = none ↔ d.parsed.normalFailure? q = none := by
  have houtcome : c.parsed.outcome = d.parsed.outcome := h.outcome
  have hsteps : c.parsed.steps = d.parsed.steps := h.steps
  rw [Case.normalFailure?_eq_none_iff, Case.normalFailure?_eq_none_iff,
    forall_alphaEq_congr h.outputTerm hrun.term, houtcome, hsteps, hrun.outcome, hrun.stats]

/-- Alike runs are judged alike by alike cases. -/
theorem Alike.failure?_eq_none_iff (h : c.Alike d) (hrun : r.Alike q) :
    c.parsed.failure? r = none ↔ d.parsed.failure? q = none := by
  have houtcome : c.parsed.outcome = d.parsed.outcome := h.outcome
  rw [failure?, failure?, hrun.ending, houtcome]
  split
  · exact h.normalFailure?_eq_none_iff hrun
  · split_ifs <;> simp
  · split_ifs <;> simp
  · simp

end Case

/-- Results with the same verdict, of runs with the same outcome and number of steps. -/
structure CaseResult.Same (r q : CaseResult) : Prop where
  /-- Both passed or both failed. -/
  pass : r.pass = q.pass
  /-- Both were run, to the same end in the same number of steps. -/
  run : ∃ u v : Run, r.run = some u ∧ q.run = some v ∧ u.outcome = v.outcome ∧
    u.stats.steps = v.stats.steps

namespace Suite

variable {s s' : Suite} {c d : Case}

/-- The result of the case with number `i`. -/
def resultAt (s : Suite) (settings : Settings) (i : Nat) : Option CaseResult :=
  (s.run settings).2.bind (·[i]?)

theorem limit_eq_of_alike (hmax : s.maxSteps = s'.maxSteps) (h : c.Alike d) :
    s.limit c = s'.limit d := by
  rw [limit, limit, h.maxSteps, hmax]

theorem same_runCase (hmax : s.maxSteps = s'.maxSteps) (h : c.Alike d) (settings : Settings) :
    (s.runCase settings c.parsed).2.Same (s'.runCase settings d.parsed).2 := by
  obtain ⟨t, u, ht, hu, htu⟩ := h.input
  rw [runCase_of_parse ht, runCase_of_parse hu, limit_eq_of_alike hmax h]
  have hrun := Settings.run_alike { settings with maxSteps := s'.limit d } htu
  refine ⟨?_, _, _, rfl, rfl, hrun.outcome, congrArg Stats.steps hrun.stats⟩
  rw [CaseResult.pass, CaseResult.pass, Bool.eq_iff_iff, Option.isNone_iff_eq_none,
    Option.isNone_iff_eq_none]
  exact h.failure?_eq_none_iff hrun

/-- What a validated suite tells of one of its cases. -/
theorem resultAt_validate (h : s.validate.2 = none) {i : Nat} (hc : s.cases[i]? = some (some c))
    (settings : Settings) :
    s.validate.1.resultAt settings i =
      some ((ofCases s.maxSteps []).runCase settings c.parsed).2 := by
  obtain ⟨cs, hcs, -, -⟩ := validate_eq_none_iff.1 h
  have hvalidated : s.validate.1 = ofCases s.maxSteps (cs.map Case.parsed) := by
    rw [validate_fst h hcs, ofCases, List.map_map]
  have hget : cs[i]? = some c := by simpa [hcs] using hc
  simp [resultAt, hvalidated, run_ofCases, hget]

/-- **A verdict does not see bound names.**  Let two suites with the same step limit be accepted by
validation, and let a case of the one differ from a case of the other only in the bound names of its input
and its output.  Run under the same budget or without one, both cases pass or both fail, with the same
outcome and after the same number of steps. -/
theorem verdict_eq_of_alike (hs : s.validate.2 = none) (hs' : s'.validate.2 = none)
    (hmax : s.maxSteps = s'.maxSteps) {i j : Nat} (hc : s.cases[i]? = some (some c))
    (hd : s'.cases[j]? = some (some d)) (h : c.Alike d) (budget : Option Budget) :
    ∃ r q, s.validate.1.resultAt { budget } i = some r ∧
      s'.validate.1.resultAt { budget } j = some q ∧ r.Same q :=
  ⟨_, _, resultAt_validate hs hc _, resultAt_validate hs' hd _, same_runCase hmax h _⟩

/-- Only the first of the two inputs has a parameter that its step renames. -/
theorem verdict_eq_of_alike_renamed :
    let c : Case :=
      { name := utf8 "a", input := utf8 "(x: y: x) (z: y)", output := utf8 "v: z: y",
        outcome := utf8 "value", steps := some 1 }
    let d : Case :=
      { name := utf8 "b", input := utf8 "(\\x w. x) z: y", output := utf8 "(u: u: y)",
        outcome := utf8 "value", steps := some 1 }
    let s := ofCases 7 [c]
    let s' := ofCases 7 [{ c with name := utf8 "other", input := utf8 "x" , steps := none }, d]
    let budget : Budget := ⟨utf8 "size < 6", fun r => if r.size < 6 then .holds else .spent⟩
    (s.validate.2 = none ∧ s'.validate.2 = none ∧ s.maxSteps = s'.maxSteps ∧
      s.cases[0]? = some (some c) ∧ s'.cases[1]? = some (some d) ∧ c.Alike d) ∧
      ∃ r q, s.validate.1.resultAt { budget := some budget } 0 = some r ∧
        s'.validate.1.resultAt { budget := some budget } 1 = some q ∧ r.Same q := by
  intro c d s s' budget
  have hs : s.validate.2 = none := by decide +kernel
  have hs' : s'.validate.2 = none := by decide +kernel
  have h : c.Alike d := by
    refine ⟨⟨.app (.abs (utf8 "x") (.abs (utf8 "y") (.var (utf8 "x"))))
        (.abs (utf8 "z") (.var (utf8 "y"))), .app (.abs (utf8 "x") (.abs (utf8 "w") (.var (utf8 "x"))))
        (.abs (utf8 "z") (.var (utf8 "y"))), ?_, ?_, ?_⟩, .inr ⟨.abs (utf8 "v") (.abs (utf8 "z")
        (.var (utf8 "y"))), .abs (utf8 "u") (.abs (utf8 "u") (.var (utf8 "y"))), ?_, ?_, ?_⟩,
        rfl, rfl, rfl⟩ <;> decide +kernel
  exact ⟨⟨hs, hs', rfl, rfl, rfl, h⟩, verdict_eq_of_alike hs hs' rfl rfl rfl h (some budget)⟩

end Suite

end CallByValue
