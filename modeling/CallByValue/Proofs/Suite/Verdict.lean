import CallByValue.Proofs.Run.Limit
import CallByValue.Proofs.Suite.Accepted
import CallByValue.Proofs.Suite.History
import CallByValue.Proofs.Term.Alpha

/-!
# What a verdict means

A case asks something of the sequence of its term: that it reaches a normal form within the step limit,
perhaps of a given kind, up to bound names a given one, or after a given number of steps; or that it
goes on beyond the limit (`Case.Meets`).

A run under a limit alone ends in one of two ways: at the normal form, where the sequence has one within
the limit, or else at the limit, where a further step is possible (`Settings.Course.of_limit`).  In both,
what is told of the run decides what the case asks (`Case.failure?_eq_none_iff`), so a case of an
accepted suite passes exactly if its term meets it (`Suite.passes_iff_meets`).
-/

namespace CallByValue

namespace Case

/-! ### What a case asks -/

/-- What a case asks of a normal form `u` that is reached after `n` steps. -/
structure Fits (c : Case) (n : Nat) (u : Term) : Prop where
  /-- It is a value, if the outcome says so. -/
  value : c.outcome = Expectation.value.toText → u.isValue = true
  /-- It is stuck, if the outcome says so. -/
  stuck : c.outcome = Expectation.stuck.toText → u.isValue = false
  /-- It is the expected term up to bound names, if there is one. -/
  output : c.output ≠ [] → ∀ w, Term.parse c.output = .ok w → u.alphaEq w = true
  /-- It is reached in the expected number of steps, if there is one. -/
  steps : ∀ m, c.steps = some m → n = m

/-- What a case asks of its term under a step limit. -/
def Meets (c : Case) (limit : Nat) (t : Term) : Prop :=
  if c.outcome = Expectation.diverges.toText then
    ∃ u v, t.after limit = some u ∧ u.reduce = some v
  else
    ∃ n ≤ limit, ∃ u, t.after n = some u ∧ u.reduce = none ∧ c.Fits n u

variable {c : Case} {t u v : Term} {limit k : Nat}

/-- Where the sequence ends within the limit, its last term decides. -/
theorem meets_of_normal (hu : t.after k = some u) (hle : k ≤ limit) (hnone : u.reduce = none) :
    c.Meets limit t ↔ c.outcome ≠ Expectation.diverges.toText ∧ c.Fits k u := by
  rw [Meets]
  split_ifs with hdiv
  · refine iff_of_false ?_ fun h => h.1 hdiv
    rintro ⟨w, v, hw, hv⟩
    have hnext : t.after (limit + 1) = some v := by rw [Term.after_succ, hw, Option.bind_some, hv]
    have := Term.le_of_reduce_eq_none hu hnone hnext
    omega
  · rw [and_iff_right hdiv]
    refine ⟨?_, fun hfits => ⟨k, hle, u, hu, hnone, hfits⟩⟩
    rintro ⟨n, -, w, hw, hwnone, hfits⟩
    obtain rfl : n = k := Nat.le_antisymm (Term.le_of_reduce_eq_none hu hnone hw)
      (Term.le_of_reduce_eq_none hw hwnone hu)
    obtain rfl : w = u := Option.some.inj (hw.symm.trans hu)
    exact hfits

/-- Where the sequence goes beyond the limit, only divergence is met. -/
theorem meets_of_step (hu : t.after limit = some u) (hv : u.reduce = some v) :
    c.Meets limit t ↔ c.outcome = Expectation.diverges.toText := by
  rw [Meets]
  split_ifs with hdiv
  · exact iff_of_true ⟨u, v, hu, hv⟩ hdiv
  · refine iff_of_false ?_ hdiv
    rintro ⟨n, hle, w, hw, hwnone, -⟩
    have hnext : t.after (limit + 1) = some v := by rw [Term.after_succ, hu, Option.bind_some, hv]
    have := Term.le_of_reduce_eq_none hw hwnone hnext
    omega

/-! ### What the run of a case shows -/

theorem normalFailure?_eq_none_iff {r : Run} :
    c.normalFailure? r = none ↔ c.outcome ≠ Expectation.diverges.toText ∧
      (c.outcome = Expectation.any.toText ∨ c.outcome = r.outcome.toText) ∧
      (∀ w, c.outputTerm = some w → w.alphaEq r.term = true) ∧
      ∀ m, c.steps = some m → m = r.stats.steps := by
  rw [normalFailure?]
  split_ifs with hdiv houtcome
  · simp [hdiv]
  · simp only [false_iff, not_and]
    exact fun _ h => absurd h (not_or.2 houtcome)
  · have hor : c.outcome = Expectation.any.toText ∨ c.outcome = r.outcome.toText := by
      rw [← not_and_or.trans (or_congr not_not not_not)]
      exact houtcome
    have houtput : (∀ w, c.outputTerm = some w → w.alphaEq r.term = true) ↔
        (c.outputTerm.filter fun t => !t.alphaEq r.term) = none := by
      cases c.outputTerm <;> simp
    have hsteps : (∀ m, c.steps = some m → m = r.stats.steps) ↔
        c.steps.filter (· ≠ r.stats.steps) = none := by
      cases c.steps <;> simp
    rw [and_iff_right hdiv, and_iff_right hor, houtput, hsteps]
    cases c.outputTerm.filter fun t => !t.alphaEq r.term with
    | some w => simp
    | none => cases c.steps.filter (· ≠ r.stats.steps) <;> simp

/-- The word of a sound case agrees with the outcome of a run to a normal form exactly if the normal
form is of the kind that the word says. -/
theorem Sound.outcome_iff (hc : c.Sound) :
    (c.outcome = Expectation.any.toText ∨
        c.outcome = (if u.isValue then Outcome.value else .stuck).toText) ∧
        c.outcome ≠ Expectation.diverges.toText ↔
      ((c.outcome = Expectation.value.toText → u.isValue = true) ∧
        (c.outcome = Expectation.stuck.toText → u.isValue = false)) ∧
        c.outcome ≠ Expectation.diverges.toText := by
  obtain ⟨e, he⟩ := hc.exists_expectation
  rw [he]
  cases e <;> cases u.isValue <;> decide

theorem parsed_outputTerm_eq_some {w : Term} :
    c.parsed.outputTerm = some w ↔ c.output ≠ [] ∧ Term.parse c.output = .ok w := by
  by_cases ho : c.output = []
  · simp [parsed, ho]
  · cases hu : Term.parse c.output <;> simp [parsed, ho, hu, Except.toOption]

/-- A run to a normal form shows whether the normal form fits. -/
theorem Sound.normalFailure?_eq_none_iff (hc : c.Sound) {r : Run} (hnormal : r.ending = .normal) :
    c.parsed.normalFailure? r = none ↔
      c.outcome ≠ Expectation.diverges.toText ∧ c.Fits r.stats.steps r.term := by
  have houtcome : r.outcome = if r.term.isValue then .value else .stuck := by
    rw [Run.outcome, hnormal]
  have hkind := hc.outcome_iff (u := r.term)
  rw [← houtcome] at hkind
  have houtput : (∀ w, c.parsed.outputTerm = some w → w.alphaEq r.term = true) ↔
      (c.output ≠ [] → ∀ w, Term.parse c.output = .ok w → r.term.alphaEq w = true) := by
    simp only [parsed_outputTerm_eq_some, Term.alphaEq_iff_nameless_eq, and_imp,
      eq_comm (a := r.term.nameless)]
    exact ⟨fun h ho w hw => h w ho hw, fun h w ho hw => h ho w hw⟩
  rw [Case.normalFailure?_eq_none_iff, houtput]
  constructor
  · rintro ⟨hdiv, hword, hterm, hsteps⟩
    obtain ⟨⟨hvalue, hstuck⟩, -⟩ := hkind.1 ⟨hword, hdiv⟩
    exact ⟨hdiv, hvalue, hstuck, hterm, fun m hm => (hsteps m hm).symm⟩
  · rintro ⟨hdiv, hfits⟩
    obtain ⟨hword, -⟩ := hkind.2 ⟨⟨hfits.value, hfits.stuck⟩, hdiv⟩
    exact ⟨hdiv, hword, hfits.output, fun m hm => (hfits.steps m hm).symm⟩

/-- **The run of a case decides what the case asks.** -/
theorem Sound.failure?_eq_none_iff (hc : c.Sound) (hpos : 0 < limit)
    (hbound : limit ≤ Settings.horizon) (t : Term) :
    c.parsed.failure? (Settings.run { maxSteps := limit } t) = none ↔ c.Meets limit t := by
  obtain ⟨k, u, e, hcourse, hrun⟩ :=
    Settings.exists_course { maxSteps := limit } Settings.horizon t
  rw [Settings.run, hrun]
  have hsteps := hcourse.stats.1
  rcases hcourse.of_limit hpos hbound with ⟨hle, hnone, rfl⟩ | ⟨rfl, ⟨v, hv⟩, rfl⟩
  · have hfits := hc.normalFailure?_eq_none_iff (r := .along t k u .normal) rfl
    rw [hsteps] at hfits
    rw [meets_of_normal hcourse.reached hle hnone]
    exact hfits
  · rw [meets_of_step hcourse.reached hv]
    have hsame : c.parsed.outcome = c.outcome := rfl
    by_cases hdiv : c.outcome = Expectation.diverges.toText <;>
      simp [failure?, Run.along, hsame, hdiv]

end Case

/-! ### Verdicts of a suite -/

namespace Suite

variable {s : Suite} {c : Case}

theorem limit_pos (s : Suite) (c : Case) : 0 < s.limit c := by
  unfold limit defaultMaxSteps
  split_ifs <;> omega

theorem InRange.limit_lt (hs : s.InRange) (hc : some c ∈ s.cases) : s.limit c < 2 ^ 64 := by
  have hown := hs.caseMaxSteps c hc
  have hshared := hs.maxSteps
  unfold limit defaultMaxSteps
  split_ifs <;> omega

/-- A case that holds its terms runs the term of its input. -/
theorem runCase_of_parse {t : Term} (h : Term.parse c.input = .ok t) (s : Suite)
    (settings : Settings) :
    (s.runCase settings c.parsed).2 =
      let run := { settings with maxSteps := s.limit c }.run t
      ⟨c.name, some run, c.parsed.failure? run⟩ := by
  have hterm : c.parsed.term = (c.parsed, .ok t) := by
    simp [Case.term, Case.parsed, h, Except.toOption]
  rw [runCase, hterm]
  rfl

/-- The input of a sound case is a term, and its run decides whether the case passes. -/
theorem runCase_parsed (hc : c.Sound) (s : Suite) (settings : Settings) :
    ∃ t, Term.parse c.input = .ok t ∧
      (s.runCase settings c.parsed).2.failure =
        c.parsed.failure? ({ settings with maxSteps := s.limit c }.run t) := by
  obtain ⟨t, ht⟩ := hc.input
  exact ⟨t, ht, by rw [runCase_of_parse ht]⟩

/-- **What a verdict means.**  In a suite that validation accepts, run without a budget and without
cancellation, let `t` be the term of a case's input and `limit` its step limit: its own if that is
positive, else the suite's if that is positive, else 10000.  The case passes exactly if `t` meets what it
asks: if it expects divergence, that `limit` steps can be taken and one more; otherwise that a normal
form is reached within `limit` steps that fits the outcome, the output and the number of steps. -/
theorem passes_iff_meets (s : Suite) (haccepted : s.validate.2 = none) (hs : s.InRange) :
    ∃ cs rs, s.cases = cs.map some ∧ (s.validate.1.run {}).2 = some rs ∧
      List.Forall₂ (fun (c : Case) (r : CaseResult) =>
        ∃ t, Term.parse c.input = .ok t ∧
          let limit := if 0 < c.maxSteps then c.maxSteps
            else if 0 < s.maxSteps then s.maxSteps else 10000
          (r.pass = true ↔ c.Meets limit t)) cs rs := by
  obtain ⟨cs, hcs, hsound, -⟩ := validate_eq_none_iff.1 haccepted
  have hvalidated : s.validate.1 = ofCases s.maxSteps (cs.map Case.parsed) := by
    rw [validate_fst haccepted hcs, ofCases, List.map_map]
  refine ⟨cs, _, hcs, by rw [hvalidated, run_ofCases], ?_⟩
  rw [List.map_map, List.forall₂_map_right_iff, List.forall₂_same]
  intro c hc
  obtain ⟨t, ht, hfailure⟩ := runCase_parsed (hsound c hc) (ofCases s.maxSteps []) {}
  have hmem : some c ∈ s.cases := hcs ▸ List.mem_map_of_mem hc
  have hbound : s.limit c ≤ Settings.horizon := Nat.le_of_lt_succ (hs.limit_lt hmem)
  refine ⟨t, ht, ?_⟩
  rw [CaseResult.pass, Function.comp_apply, hfailure, Option.isNone_iff_eq_none]
  exact (hsound c hc).failure?_eq_none_iff (s.limit_pos c) hbound t

/-- A term whose value is reached exactly at the limit, beside one that is still going on there. -/
theorem passes_iff_meets_at_limit :
    let self := utf8 "(x: x x) (x: x x)"
    let s : Suite := ofCases 1 [
      { name := utf8 "identity", input := utf8 "(x: x) (y: y)", output := utf8 "z: z",
        outcome := utf8 "value", steps := some 1 },
      { name := utf8 "loop", input := self, outcome := utf8 "diverges", maxSteps := 7 },
      { name := utf8 "no loop", input := self, outcome := utf8 "stuck" }]
    s.validate.2 = none ∧ s.InRange ∧
      (s.validate.1.run {}).2.map (·.map CaseResult.pass) = some [true, true, false] ∧
      ∃ cs rs, s.cases = cs.map some ∧ (s.validate.1.run {}).2 = some rs ∧
        List.Forall₂ (fun (c : Case) (r : CaseResult) =>
          ∃ t, Term.parse c.input = .ok t ∧
            let limit := if 0 < c.maxSteps then c.maxSteps
              else if 0 < s.maxSteps then s.maxSteps else 10000
            (r.pass = true ↔ c.Meets limit t)) cs rs := by
  intro self s
  have haccepted : s.validate.2 = none := by decide +kernel
  have hs : s.InRange := by
    constructor
    · decide
    · simp [s, ofCases]
    · simp [s, ofCases]
  exact ⟨haccepted, hs, by decide +kernel, passes_iff_meets s haccepted hs⟩

end Suite

end CallByValue
