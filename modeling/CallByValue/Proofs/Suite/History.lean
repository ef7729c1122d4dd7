import CallByValue.Suite.Run
import Mathlib.Data.List.Forall2
import Mathlib.Tactic.SplitIfs

/-!
# Suites and their history

A suite keeps the terms of its cases once they are parsed, so what a run tells of a case may depend on
the calls before it.  A case that was called on is either still unparsed or in the state that parsing
leaves it in (`Case.Kept`), and parsing it again changes nothing.  In both states a run tells the same
of it, with one exception: parsing keeps the input even where the output is no term, and a later run
takes such a case for one without an output (`Case.StrayOutput`).

**Main theorem** (`Suite.verdicts_after_iff`): the verdicts of a suite do not depend on the calls before
a run exactly if no case has an output that is no term beside an input that is one.
-/

namespace CallByValue

/-! ### Calls and verdicts -/

/-- The kinds of error that can come with the result of a case. -/
inductive ErrorKind where
  /-- The case could not be run. -/
  | invalidSuite
  /-- The budget does not hold. -/
  | budgetSpent
  /-- The budget could not be evaluated. -/
  | budgetFailed
  /-- The run was cancelled. -/
  | cancelled
  /-- The step limit was reached. -/
  | stepLimit
  deriving DecidableEq, Repr

/-- The kind of error of a stop. -/
def Halt.kind : Halt → ErrorKind
  | budgetSpent _ _ => .budgetSpent
  | budgetFailed _ => .budgetFailed
  | cancelled _ => .cancelled
  | stepLimit _ => .stepLimit

namespace CaseResult

/-- The kind of error that comes with a result, also where the case passed. -/
def errorKind (r : CaseResult) : Option ErrorKind :=
  match r.run with
  | none => r.failure.map fun _ => .invalidSuite
  | some run => run.halt?.map Halt.kind

/-- What a result tells: whether the case passed, why it did not, and the kind of error. -/
def verdict (r : CaseResult) : Bool × Text × Option ErrorKind :=
  (r.pass, (r.failure.map Failure.message).getD [], r.errorKind)

end CaseResult

namespace Suite

/-- A call that may parse terms. -/
inductive Call where
  /-- The suite is validated. -/
  | validate
  /-- The suite is run. -/
  | run (settings : Settings)

/-- The suite after a call. -/
def call (s : Suite) : Call → Suite
  | .validate => s.validate.1
  | .run settings => (s.run settings).1

/-- The suite after a sequence of calls. -/
def after (s : Suite) (calls : List Call) : Suite := calls.foldl call s

/-- The suite with the given cases, none of them missing. -/
def ofCases (maxSteps : Nat) (cs : List Case) : Suite := ⟨maxSteps, cs.map some⟩

/-- What a run tells of the cases. -/
def verdicts (s : Suite) (settings : Settings) : Option (List (Bool × Text × Option ErrorKind)) :=
  (s.run settings).2.map (·.map CaseResult.verdict)

end Suite

/-! ### The states of a case -/

namespace Case

/-- The output is there and is no term. -/
def BadOutput (c : Case) : Prop := c.output ≠ [] ∧ ∃ e, Term.parse c.output = .error e

/-- The output is no term although the input is one. -/
def StrayOutput (c : Case) : Prop := (∃ t, Term.parse c.input = .ok t) ∧ c.BadOutput

/-- The states of a case between calls: unparsed, or as parsing leaves it. -/
def Kept (c d : Case) : Prop := d = c.unparsed ∨ d = c.unparsed.parse.1

variable {c d : Case}

theorem parse_parse (c : Case) : c.unparsed.parse.1.parse = c.unparsed.parse := by
  cases hi : Term.parse c.input with
  | error e => simp [parse, unparsed, hi]
  | ok t =>
    by_cases ho : c.output = []
    · simp [parse, unparsed, hi, ho]
    · cases hu : Term.parse c.output <;> simp [parse, unparsed, hi, ho, hu]

theorem Kept.parse_eq (h : c.Kept d) : d.parse = c.unparsed.parse := by
  rcases h with rfl | rfl
  · rfl
  · exact parse_parse c

theorem Kept.parse (h : c.Kept d) : c.Kept d.parse.1 :=
  .inr (congrArg Prod.fst h.parse_eq)

theorem Kept.term (h : c.Kept d) : c.Kept d.term.1 := by
  rw [Case.term]
  split
  · exact h
  · exact h.parse

theorem Kept.validate (h : c.Kept d) (i : Nat) (seen : List Text) :
    c.Kept (d.validate i seen).1 := by
  rw [Case.validate]
  split_ifs
  · exact h
  · exact h
  · have hp := h.parse
    generalize d.parse = p at hp
    obtain ⟨e, _ | t⟩ := p
    · exact hp
    · exact hp

theorem Kept.runCase (h : c.Kept d) (s : Suite) (settings : Settings) :
    c.Kept (s.runCase settings d).1 := by
  have ht := h.term
  rw [Suite.runCase]
  generalize d.term = p at ht
  obtain ⟨e, _ | t⟩ := p
  · exact ht
  · exact ht

/-! ### What a run tells of a case -/

/-- A case without a stray output has the same result in both of its states. -/
theorem Kept.result_eq (h : c.Kept d) (hc : ¬ c.StrayOutput) (s : Suite) (settings : Settings) :
    (s.runCase settings d).2 = (s.runCase settings c.unparsed).2 := by
  rcases h with rfl | rfl
  · rfl
  · -- what parsing has kept is what it gives again, unless it failed behind the input
    have hterm : c.unparsed.parse.1.term = c.unparsed.term := by
      cases hi : Term.parse c.input with
      | error e => simp [Case.term, Case.parse, unparsed, hi]
      | ok t =>
        by_cases ho : c.output = []
        · simp [Case.term, Case.parse, unparsed, hi, ho]
        · cases hu : Term.parse c.output with
          | error e => exact absurd ⟨⟨t, hi⟩, ho, e, hu⟩ hc
          | ok u => simp [Case.term, Case.parse, unparsed, hi, ho, hu]
    rw [Suite.runCase, Suite.runCase, hterm]

theorem errorKind_of_badOutput (hc : c.BadOutput) (s : Suite) (settings : Settings) :
    (s.runCase settings c.unparsed).2.errorKind = some .invalidSuite := by
  obtain ⟨ho, e, he⟩ := hc
  cases hi : Term.parse c.input <;>
    simp [Suite.runCase, term, parse, unparsed, hi, ho, he, CaseResult.errorKind]

theorem not_pass_of_badOutput (hc : c.BadOutput) (s : Suite) (settings : Settings) :
    (s.runCase settings c.unparsed).2.pass = false := by
  obtain ⟨ho, e, he⟩ := hc
  cases hi : Term.parse c.input <;>
    simp [Suite.runCase, term, parse, unparsed, hi, ho, he, CaseResult.pass]

/-- Once a case with a stray output has been run, it is run as a case without an output, so no fault
is reported any more. -/
theorem StrayOutput.errorKind_ne (hc : c.StrayOutput) (s : Suite) (settings : Settings) :
    (s.runCase settings (s.runCase settings c.unparsed).1).2.errorKind ≠ some .invalidSuite := by
  obtain ⟨⟨t, hi⟩, ho, e, he⟩ := hc
  simp only [Suite.runCase, term, parse, unparsed, hi, ho, he, if_false, CaseResult.errorKind]
  -- the second run has a term to run, and no way for a run to stop is a fault of the suite
  intro hk
  obtain ⟨h, -, hh⟩ := Option.map_eq_some_iff.1 hk
  cases h <;> simp [Halt.kind] at hh

end Case

namespace Suite

variable (m : Nat) (cs : List Case) (settings : Settings)

/-! ### Calls on a suite -/

theorem runFrom_map_some (s : Suite) (ds : List Case) :
    s.runFrom settings (ds.map some) =
      (ds.map fun d => some (s.runCase settings d).1,
        some (ds.map fun d => (s.runCase settings d).2)) := by
  induction ds with
  | nil => rfl
  | cons d ds ih => simp [runFrom, ih]

theorem run_ofCases (ds : List Case) :
    (ofCases m ds).run settings =
      (ofCases m (ds.map fun d => ((ofCases m []).runCase settings d).1),
        some (ds.map fun d => ((ofCases m []).runCase settings d).2)) := by
  rw [run, ofCases, runFrom_map_some, ofCases, List.map_map]
  rfl

theorem validateFrom_kept {cs ds : List Case} (h : List.Forall₂ Case.Kept cs ds) (i : Nat)
    (seen : List Text) :
    ∃ es, (validateFrom i seen (ds.map some)).1 = es.map some ∧ List.Forall₂ Case.Kept cs es := by
  induction h generalizing i seen with
  | nil => exact ⟨[], rfl, .nil⟩
  | @cons c d cs ds hd hds ih =>
    have hv := hd.validate i seen
    rw [List.map_cons, validateFrom]
    generalize d.validate i seen = p at hv
    obtain ⟨e, _ | f⟩ := p
    · obtain ⟨es, hes, hk⟩ := ih (i + 1) (e.name :: seen)
      exact ⟨e :: es, congrArg (some e :: ·) hes, .cons hv hk⟩
    · -- the first fault ends the check, so the cases behind it stay as they are
      exact ⟨e :: ds, rfl, .cons hv hds⟩

theorem call_kept {cs ds : List Case} (h : List.Forall₂ Case.Kept cs ds) (k : Call) :
    ∃ es, (ofCases m ds).call k = ofCases m es ∧ List.Forall₂ Case.Kept cs es := by
  cases k with
  | validate =>
    obtain ⟨es, hes, hk⟩ := validateFrom_kept h 0 []
    exact ⟨es, congrArg (Suite.mk m) hes, hk⟩
  | run settings =>
    refine ⟨_, congrArg Prod.fst (run_ofCases m settings ds), ?_⟩
    rw [List.forall₂_map_right_iff]
    exact h.imp fun c d hd => hd.runCase _ settings

/-- Whatever the calls, every case stays in one of its two states. -/
theorem after_kept (calls : List Call) :
    ∃ ds, (ofCases m (cs.map Case.unparsed)).after calls = ofCases m ds ∧
      List.Forall₂ Case.Kept cs ds := by
  have hstart : List.Forall₂ Case.Kept cs (cs.map Case.unparsed) := by
    rw [List.forall₂_map_right_iff, List.forall₂_same]
    exact fun c _ => .inl rfl
  -- for any suite in one of the two states, since a call leads from one such suite to another
  generalize cs.map Case.unparsed = ds at hstart
  induction calls generalizing ds with
  | nil => exact ⟨ds, rfl, hstart⟩
  | cons k calls ih =>
    obtain ⟨es, hes, hk⟩ := call_kept m hstart k
    rw [after, List.foldl_cons, hes]
    exact ih es hk

/-! ### Independence of the history -/

variable {cs}

theorem results_kept (hcs : ∀ c ∈ cs, ¬ c.StrayOutput) {ds : List Case}
    (h : List.Forall₂ Case.Kept cs ds) :
    ((ofCases m ds).run settings).2 = ((ofCases m (cs.map Case.unparsed)).run settings).2 := by
  simp only [run_ofCases, Option.some.injEq]
  induction h with
  | nil => rfl
  | cons hd _ ih =>
    simp only [List.map_cons]
    rw [ih fun c hc => hcs c (List.mem_cons_of_mem _ hc), hd.result_eq (hcs _ List.mem_cons_self)]

theorem results_after (hcs : ∀ c ∈ cs, ¬ c.StrayOutput) (calls : List Call) :
    (((ofCases m (cs.map Case.unparsed)).after calls).run settings).2 =
      ((ofCases m (cs.map Case.unparsed)).run settings).2 := by
  obtain ⟨ds, hds, hk⟩ := after_kept m cs calls
  rw [hds, results_kept m settings hcs hk]

/-- A second run shows every stray output. -/
theorem not_strayOutput_of_verdicts_eq
    (h : ((ofCases m (cs.map Case.unparsed)).run settings).1.verdicts settings =
      (ofCases m (cs.map Case.unparsed)).verdicts settings) :
    ∀ c ∈ cs, ¬ c.StrayOutput := by
  intro c hc hstray
  simp only [verdicts, run_ofCases, List.map_map, Option.map_some, Option.some.injEq,
    List.map_inj_left] at h
  have hkind := congrArg (·.2.2) (h c hc)
  simp only [Function.comp_apply, CaseResult.verdict] at hkind
  rw [Case.errorKind_of_badOutput hstray.2] at hkind
  exact hstray.errorKind_ne _ settings hkind

/-- **Verdicts and history.**  For a suite none of whose cases is missing, the verdicts of a run are
those of a run of the unparsed suite, whatever was called before, exactly if no case has an output that
is no term beside an input that is one.  Already a second run tells, and where there is no such case,
one with a bad output never passes. -/
theorem verdicts_after_iff (m : Nat) (cs : List Case) (settings : Settings) :
    let fresh := ofCases m (cs.map Case.unparsed)
    ((∀ calls, (fresh.after calls).verdicts settings = fresh.verdicts settings) ↔
      ∀ c ∈ cs, ¬ c.StrayOutput) ∧
    ((fresh.run settings).1.verdicts settings = fresh.verdicts settings ↔
      ∀ c ∈ cs, ¬ c.StrayOutput) ∧
    ((∀ c ∈ cs, ¬ c.StrayOutput) → ∀ calls, ∃ rs, ((fresh.after calls).run settings).2 = some rs ∧
      List.Forall₂ (fun c r => c.BadOutput → r.pass = false) cs rs) := by
  intro fresh
  have hback : (∀ c ∈ cs, ¬ c.StrayOutput) → ∀ calls,
      (fresh.after calls).verdicts settings = fresh.verdicts settings := fun hcs calls => by
    rw [verdicts, results_after m settings hcs, verdicts]
  refine ⟨⟨fun h => ?_, hback⟩, ⟨not_strayOutput_of_verdicts_eq m settings, fun hcs => ?_⟩, ?_⟩
  · exact not_strayOutput_of_verdicts_eq m settings (h [.run settings])
  · exact hback hcs [.run settings]
  · intro hcs calls
    refine ⟨_, (results_after m settings hcs calls).trans (by rw [run_ofCases]), ?_⟩
    rw [List.map_map, List.forall₂_map_right_iff, List.forall₂_same]
    exact fun c _ hc => Case.not_pass_of_badOutput hc _ settings

/-- A second run does not tell what the first did, and lets a case pass whose output is no term. -/
theorem second_run_passes_bad_output :
    let s := ofCases 0 [{ name := utf8 "a", input := utf8 "x", output := utf8 "(" }]
    (s.run {}).1.verdicts {} ≠ s.verdicts {} ∧
      ((s.run {}).1.run {}).2.map (·.map CaseResult.pass) = some [true] := by
  decide +kernel

end Suite

end CallByValue
