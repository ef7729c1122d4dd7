import CallByValue.Suite.Basic
import Mathlib.Algebra.Group.Nat.Defs
import Mathlib.Data.List.Nodup

/-!
# Accepted suites

Validation accepts a suite exactly if none of its cases is missing, each is sound by itself
(`Case.Sound`) and no two have the same name (`Suite.validate_eq_none_iff`).  Whatever terms the cases
held before, they hold those of their sources afterwards (`Case.parsed`); the fields of a suite stay as
they were (`Suite.unparsed_validate`).
-/

namespace CallByValue

namespace Case

/-- What validation asks of a single case. -/
structure Sound (c : Case) : Prop where
  /-- There is a name. -/
  named : c.name ≠ []
  /-- The input is a term. -/
  input : ∃ t, Term.parse c.input = .ok t
  /-- The output is a term, if there is one. -/
  output : c.output = [] ∨ ∃ u, Term.parse c.output = .ok u
  /-- The outcome is known and goes with what else is expected. -/
  outcome : c.outcomeFault? = none

/-- The case with the terms of its sources. -/
def parsed (c : Case) : Case :=
  { c with
    inputTerm := (Term.parse c.input).toOption
    outputTerm := if c.output = [] then none else (Term.parse c.output).toOption }

variable {c : Case} {t : Term}

theorem parse_eq_ok_iff :
    (∃ t, c.parse.2 = .ok t) ↔
      (∃ t, Term.parse c.input = .ok t) ∧ (c.output = [] ∨ ∃ u, Term.parse c.output = .ok u) := by
  cases hi : Term.parse c.input with
  | error e => simp [parse, hi]
  | ok t =>
    by_cases ho : c.output = []
    · simp [parse, hi, ho]
    · cases hu : Term.parse c.output <;> simp [parse, hi, ho, hu]

/-- Parsing that succeeds leaves nothing of the terms before. -/
theorem parse_fst_of_ok (h : c.parse.2 = .ok t) : c.parse.1 = c.parsed := by
  cases hi : Term.parse c.input with
  | error e => simp [parse, hi] at h
  | ok t =>
    by_cases ho : c.output = []
    · simp [parse, parsed, hi, ho, Except.toOption]
    · cases hu : Term.parse c.output with
      | error e => simp [parse, hi, ho, hu] at h
      | ok u => simp [parse, parsed, hi, ho, hu, Except.toOption]

/-- A case is accepted if it is sound and has a name of its own, and then it holds its terms. -/
theorem validate_eq_none_iff {i : Nat} {seen : List Text} :
    (c.validate i seen).2 = none ↔ c.Sound ∧ c.name ∉ seen := by
  rw [validate]
  split_ifs with hname hseen
  · simp only [false_iff]
    exact fun h => h.1.named hname
  · simp only [false_iff]
    exact fun h => h.2 (by simpa using hseen)
  · have hseen' : c.name ∉ seen := by simpa using hseen
    have hok := parse_eq_ok_iff (c := c)
    rcases hp : c.parse with ⟨d, fault | t⟩
    · simp only [hp, reduceCtorEq, exists_false, false_iff, not_and] at hok ⊢
      exact fun h _ => hok h.input h.output
    · have hd := parse_fst_of_ok (c := c) (t := t) (by rw [hp])
      rw [hp] at hok hd
      obtain ⟨hin, hout⟩ := hok.1 ⟨t, rfl⟩
      have hfault : d.outcomeFault? = c.outcomeFault? := by rw [show d = c.parsed from hd]; rfl
      simp only [hfault]
      exact ⟨fun h => ⟨⟨hname, hin, hout, h⟩, hseen'⟩, fun h => h.1.outcome⟩

theorem validate_fst {i : Nat} {seen : List Text} (h : (c.validate i seen).2 = none) :
    (c.validate i seen).1 = c.parsed := by
  obtain ⟨hsound, hseen⟩ := validate_eq_none_iff.1 h
  obtain ⟨t, ht⟩ := parse_eq_ok_iff.2 ⟨hsound.input, hsound.output⟩
  have hseen' : seen.contains c.name ≠ true := by simpa using hseen
  rw [validate, if_neg hsound.named, if_neg hseen', ← parse_fst_of_ok ht]
  rcases hp : c.parse with ⟨d, fault | t⟩
  · simp [hp] at ht
  · rfl

/-- Only the fields of a case count, not the terms that it holds. -/
theorem Sound.unparsed (h : c.Sound) : c.unparsed.Sound where
  named := h.named
  input := h.input
  output := h.output
  outcome := h.outcome

/-- The outcome of a sound case is the word for an expectation. -/
theorem Sound.exists_expectation (h : c.Sound) : ∃ e : Expectation, c.outcome = e.toText := by
  have hfault := h.outcome
  cases he : Expectation.ofText? c.outcome with
  | none => simp [outcomeFault?, he] at hfault
  | some e =>
    have hword : decide (e.toText = c.outcome) = true :=
      List.find?_some (p := fun e : Expectation => decide (e.toText = c.outcome)) he
    exact ⟨e, (of_decide_eq_true hword).symm⟩

end Case

namespace Suite

variable {i : Nat} {seen : List Text}

theorem validateFrom_cons {c : Case} (h : (c.validate i seen).2 = none) (cs : List (Option Case)) :
    validateFrom i seen (some c :: cs) =
      (some c.parsed :: (validateFrom (i + 1) (c.name :: seen) cs).1,
        (validateFrom (i + 1) (c.name :: seen) cs).2) := by
  have hfst := Case.validate_fst h
  rw [validateFrom]
  generalize c.validate i seen = p at h hfst
  obtain ⟨d, fault⟩ := p
  dsimp only at h hfst
  subst h hfst
  rfl

theorem validateFrom_cons_of_fault {c : Case} {fault : Fault}
    (h : (c.validate i seen).2 = some fault) (cs : List (Option Case)) :
    (validateFrom i seen (some c :: cs)).2 = some fault := by
  rw [validateFrom]
  generalize c.validate i seen = p at h
  obtain ⟨d, _⟩ := p
  dsimp only at h
  subst h
  rfl

/-- In an accepted list no case is missing. -/
theorem exists_cases_of_validateFrom {cs : List (Option Case)} (h : (validateFrom i seen cs).2 = none) :
    ∃ ds : List Case, cs = ds.map some := by
  induction cs generalizing i seen with
  | nil => exact ⟨[], rfl⟩
  | cons o cs ih =>
    cases o with
    | none => simp [validateFrom] at h
    | some c =>
      cases hc : (c.validate i seen).2 with
      | some fault =>
        rw [validateFrom_cons_of_fault hc] at h
        simp at h
      | none =>
        rw [validateFrom_cons hc] at h
        obtain ⟨ds, rfl⟩ := ih h
        exact ⟨c :: ds, rfl⟩

theorem validateFrom_eq_none_iff {ds : List Case} :
    (validateFrom i seen (ds.map some)).2 = none ↔
      (∀ d ∈ ds, d.Sound ∧ d.name ∉ seen) ∧ (ds.map Case.name).Nodup := by
  induction ds generalizing i seen with
  | nil => simp [validateFrom]
  | cons d ds ih =>
    rw [List.map_cons, List.forall_mem_cons, List.map_cons, List.nodup_cons,
      ← Case.validate_eq_none_iff (i := i)]
    cases hd : (d.validate i seen).2 with
    | some fault => simp [validateFrom_cons_of_fault hd]
    | none =>
      rw [validateFrom_cons hd, ih]
      -- the name of the first case is among the names that the others must not have
      simp only [true_and, List.mem_cons, not_or, List.mem_map, not_exists, not_and]
      constructor
      · rintro ⟨hall, hnodup⟩
        exact ⟨fun e he => ⟨(hall e he).1, (hall e he).2.2⟩,
          fun e he heq => (hall e he).2.1 heq, hnodup⟩
      · rintro ⟨hall, hne, hnodup⟩
        exact ⟨fun e he => ⟨(hall e he).1, hne e he, (hall e he).2⟩, hnodup⟩

theorem validateFrom_fst {ds : List Case} (h : (validateFrom i seen (ds.map some)).2 = none) :
    (validateFrom i seen (ds.map some)).1 = ds.map (some ∘ Case.parsed) := by
  induction ds generalizing i seen with
  | nil => rfl
  | cons d ds ih =>
    rw [List.map_cons] at h ⊢
    cases hd : (d.validate i seen).2 with
    | some fault =>
      rw [validateFrom_cons_of_fault hd] at h
      simp at h
    | none =>
      rw [validateFrom_cons hd] at h ⊢
      rw [ih h]
      rfl

/-- **Validation** accepts a suite exactly if no case is missing, each is sound, and no two have the
same name. -/
theorem validate_eq_none_iff {s : Suite} :
    s.validate.2 = none ↔ ∃ ds : List Case, s.cases = ds.map some ∧ (∀ d ∈ ds, d.Sound) ∧
      (ds.map Case.name).Nodup := by
  constructor
  · intro h
    obtain ⟨ds, hds⟩ := exists_cases_of_validateFrom h
    rw [validate, hds] at h
    obtain ⟨hall, hnodup⟩ := validateFrom_eq_none_iff.1 h
    exact ⟨ds, hds, fun d hd => (hall d hd).1, hnodup⟩
  · rintro ⟨ds, hds, hall, hnodup⟩
    rw [validate, hds]
    exact validateFrom_eq_none_iff.2 ⟨fun d hd => ⟨hall d hd, by simp⟩, hnodup⟩

/-- An accepted suite holds the terms of its sources. -/
theorem validate_fst {s : Suite} {ds : List Case} (h : s.validate.2 = none)
    (hds : s.cases = ds.map some) : s.validate.1 = ⟨s.maxSteps, ds.map (some ∘ Case.parsed)⟩ := by
  rw [validate, hds] at h ⊢
  exact congrArg (Suite.mk s.maxSteps) (validateFrom_fst h)

/-! ### Fields -/

/-- The suite with the terms of its cases forgotten. -/
def unparsed (s : Suite) : Suite := { s with cases := s.cases.map (Option.map Case.unparsed) }

theorem unparsed_eq {s : Suite} {ds : List Case} (hcases : s.cases = ds.map some) :
    s.unparsed = ⟨s.maxSteps, (ds.map Case.unparsed).map some⟩ := by
  simp [unparsed, hcases]

/-- Only the fields of a suite count, not the terms that its cases hold. -/
theorem validate_unparsed {s : Suite} (h : s.validate.2 = none) : s.unparsed.validate.2 = none := by
  obtain ⟨ds, hcases, hsound, hnodup⟩ := validate_eq_none_iff.1 h
  rw [unparsed_eq hcases]
  refine validate_eq_none_iff.2 ⟨ds.map Case.unparsed, rfl, ?_, ?_⟩
  · exact List.forall_mem_map.2 fun d hd => (hsound d hd).unparsed
  · rw [List.map_map]
    exact hnodup

/-- Validation changes no fields. -/
theorem unparsed_validate {s : Suite} (h : s.validate.2 = none) :
    s.validate.1.unparsed = s.unparsed := by
  obtain ⟨ds, hcases, -, -⟩ := validate_eq_none_iff.1 h
  have hparsed : ds.map (some ∘ Case.parsed) = (ds.map Case.parsed).map some := List.map_map.symm
  rw [validate_fst h hcases, unparsed_eq hcases, unparsed_eq hparsed, List.map_map (f := Case.parsed)]
  rfl

/-! ### Counts -/

/-- The counts of a suite fit into 64 bits. -/
structure InRange (s : Suite) : Prop where
  /-- The step limit of the suite does. -/
  maxSteps : s.maxSteps < 2 ^ 64
  /-- So do the step limits of the cases. -/
  caseMaxSteps : ∀ c, some c ∈ s.cases → c.maxSteps < 2 ^ 64
  /-- So do the numbers of steps that they expect. -/
  caseSteps : ∀ c, some c ∈ s.cases → ∀ n, c.steps = some n → n < 2 ^ 64

end Suite

end CallByValue
