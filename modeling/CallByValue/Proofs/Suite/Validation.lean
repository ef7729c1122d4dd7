import CallByValue.Proofs.Suite.Accepted
import Mathlib.Data.List.Forall2
import Mathlib.Order.Bounds.Basic
import Mathlib.Tactic.SplitIfs

/-!
# Validation finds the first fault

Which suites are well formed is said here without the check (`Suite.WellFormed`), and so is what the fault
of a case means (`Fault.Concerns`).

* The check runs along the cases and stops at the first that is wrong; the cases before it pass by
  themselves, and with it they do not (`Suite.validateFrom_eq_some`).
* A fault of a case names the case, and what it says of it is true (`Case.concerns_of_validate`).

**Main theorem** (`Suite.validation_finds_first_fault`): a suite is accepted exactly if it is well formed,
and then its cases hold the terms of their sources.  Otherwise the fault is that of the first case with
which the cases so far are no longer well formed.
-/

namespace CallByValue

/-! ### Well-formed suites and faults -/

/-- The outcomes that a case may name. -/
def outcomeWords : List Text := [[], utf8 "value", utf8 "stuck", utf8 "diverges"]

/-- What the cases of a suite must be. -/
structure Suite.WellFormed (cs : List (Option Case)) : Prop where
  /-- No case is missing. -/
  present : none ∉ cs
  /-- Every case has a name. -/
  named : ∀ c, some c ∈ cs → c.name ≠ []
  /-- No two cases have the same name. -/
  distinct (i j : Nat) (c d : Case) : cs[i]? = some (some c) → cs[j]? = some (some d) →
    c.name = d.name → i = j
  /-- Every input is a term. -/
  input : ∀ c, some c ∈ cs → ∃ t, Term.parse c.input = .ok t
  /-- Every output is empty or a term. -/
  output : ∀ c, some c ∈ cs → c.output = [] ∨ ∃ u, Term.parse c.output = .ok u
  /-- Every outcome is known. -/
  outcome : ∀ c, some c ∈ cs → c.outcome ∈ outcomeWords
  /-- Where a case diverges nothing else is expected. -/
  divergence : ∀ c, some c ∈ cs → c.outcome = utf8 "diverges" → c.output = [] ∧ c.steps = none

/-- The fault names the case `o`, which follows the cases `before`, and what it says of it is true. -/
def Fault.Concerns (before : List (Option Case)) (o : Option Case) : Fault → Prop
  | missing i => i = before.length ∧ o = none
  | unnamed i => i = before.length ∧ ∃ c, o = some c ∧ c.name = []
  | duplicate name => (∃ c, o = some c ∧ c.name = name) ∧ ∃ d, some d ∈ before ∧ d.name = name
  | input name e => ∃ c, o = some c ∧ c.name = name ∧ Term.parse c.input = .error e
  | output name e =>
    ∃ c, o = some c ∧ c.name = name ∧ c.output ≠ [] ∧ Term.parse c.output = .error e
  | unknownOutcome name outcome =>
    ∃ c, o = some c ∧ c.name = name ∧ c.outcome = outcome ∧ outcome ∉ outcomeWords
  | contradiction name =>
    ∃ c, o = some c ∧ c.name = name ∧ c.outcome = utf8 "diverges" ∧ (c.output ≠ [] ∨ c.steps ≠ none)

/-! ### Single cases -/

theorem Expectation.ofText?_eq_none_iff {w : Text} : ofText? w = none ↔ w ∉ outcomeWords := by
  rw [ofText?, List.find?_eq_none]
  simp [outcomeWords, toText, eq_comm]

theorem Expectation.toText_of_ofText? {w : Text} {e : Expectation} (h : ofText? w = some e) :
    e.toText = w :=
  of_decide_eq_true (List.find?_some (p := fun e : Expectation => decide (e.toText = w)) h)

namespace Case

variable {c : Case} {i : Nat} {seen : List Text} {fault : Fault} {before : List (Option Case)}

/-- The case `d` has the fields of `c` and holds the terms of its sources. -/
structure Holds (c d : Case) : Prop where
  /-- The fields are the same. -/
  fields : d.unparsed = c.unparsed
  /-- It holds the term of the input. -/
  input : ∃ t, Term.parse c.input = .ok t ∧ d.inputTerm = some t
  /-- It holds the term of the output, or none if that is empty. -/
  output : (c.output = [] ∧ d.outputTerm = none) ∨
    c.output ≠ [] ∧ ∃ u, Term.parse c.output = .ok u ∧ d.outputTerm = some u

theorem Sound.holds_parsed (h : c.Sound) : c.Holds c.parsed where
  fields := rfl
  input := by
    obtain ⟨t, ht⟩ := h.input
    exact ⟨t, ht, by rw [parsed, ht]; rfl⟩
  output := by
    by_cases ho : c.output = []
    · exact .inl ⟨ho, if_pos ho⟩
    · obtain ⟨u, hu⟩ := h.output.resolve_left ho
      exact .inr ⟨ho, u, hu, by rw [parsed, if_neg ho, hu]; rfl⟩

/-- What is wrong with the outcome, told by its word. -/
theorem outcomeFault?_eq (c : Case) : c.outcomeFault? =
    if c.outcome ∈ outcomeWords then
      if c.outcome = utf8 "diverges" ∧ (c.output ≠ [] ∨ c.steps ≠ none) then
        some (.contradiction c.name)
      else none
    else some (.unknownOutcome c.name c.outcome) := by
  cases he : Expectation.ofText? c.outcome with
  | none => rw [if_neg (Expectation.ofText?_eq_none_iff.1 he), outcomeFault?, he]
  | some e =>
    have hknown : c.outcome ∈ outcomeWords := by
      by_contra hnot
      rw [Expectation.ofText?_eq_none_iff.2 hnot] at he
      exact absurd he (by simp)
    have hword := Expectation.toText_of_ofText? he
    rw [if_pos hknown, outcomeFault?, he]
    cases e with
    | diverges => simp [← hword, Expectation.toText, Option.isSome_iff_ne_none]
    | any | value | stuck =>
      have hne : c.outcome ≠ utf8 "diverges" := by
        rw [← hword]
        decide
      exact (if_neg fun h => hne h.1).symm

theorem outcomeFault?_eq_none_iff : c.outcomeFault? = none ↔
    c.outcome ∈ outcomeWords ∧
      (c.outcome = utf8 "diverges" → c.output = [] ∧ c.steps = none) := by
  rw [outcomeFault?_eq]
  split_ifs with hknown hdiv
  · simp only [false_iff, not_and]
    exact fun _ h => hdiv.2.elim (· (h hdiv.1).1) (· (h hdiv.1).2)
  · refine iff_of_true rfl ⟨hknown, fun h => ?_⟩
    simpa [h] using hdiv
  · simp [hknown]

theorem concerns_of_parse (h : c.parse.2 = .error fault) : fault.Concerns before (some c) := by
  cases hi : Term.parse c.input with
  | error e =>
    simp only [parse, hi, Except.error.injEq] at h
    subst h
    exact ⟨c, rfl, rfl, hi⟩
  | ok t =>
    by_cases ho : c.output = []
    · simp [parse, hi, ho] at h
    · cases hu : Term.parse c.output with
      | ok u => simp [parse, hi, ho, hu] at h
      | error e =>
        simp only [parse, hi, ho, hu, if_false, Except.error.injEq] at h
        subst h
        exact ⟨c, rfl, rfl, ho, hu⟩

theorem concerns_of_outcome (h : c.outcomeFault? = some fault) : fault.Concerns before (some c) := by
  rw [outcomeFault?_eq] at h
  split_ifs at h with hknown hdiv
  · obtain rfl := Option.some.inj h
    exact ⟨c, rfl, rfl, hdiv⟩
  · obtain rfl := Option.some.inj h
    exact ⟨c, rfl, rfl, rfl, hknown⟩

/-- **A fault names its case**, and what it says is true. -/
theorem concerns_of_validate (h : (c.validate before.length seen).2 = some fault)
    (hseen : ∀ name ∈ seen, ∃ d, some d ∈ before ∧ d.name = name) : fault.Concerns before (some c) := by
  rw [validate] at h
  split_ifs at h with hname hdup
  · obtain rfl := Option.some.inj h
    exact ⟨rfl, c, rfl, hname⟩
  · obtain rfl := Option.some.inj h
    exact ⟨⟨c, rfl, rfl⟩, hseen _ (by simpa using hdup)⟩
  · rcases hp : c.parse with ⟨d, f | t⟩
    · rw [hp] at h
      obtain rfl := Option.some.inj h
      exact concerns_of_parse (congrArg Prod.snd hp)
    · -- parsing leaves all that the outcome is judged by
      have hd := parse_fst_of_ok (c := c) (t := t) (by rw [hp])
      rw [hp] at h hd
      obtain rfl : d = c.parsed := hd
      exact concerns_of_outcome (c := c) h

end Case

namespace Suite

variable {i : Nat} {seen : List Text} {fault : Fault} {cs : List (Option Case)}

/-! ### Well-formed suites are the accepted ones -/

theorem exists_cases_of_present (h : none ∉ cs) : ∃ ds : List Case, cs = ds.map some := by
  induction cs with
  | nil => exact ⟨[], rfl⟩
  | cons o cs ih =>
    obtain ⟨ho, hcs⟩ := not_or.1 (List.mem_cons.not.1 h)
    obtain ⟨ds, rfl⟩ := ih hcs
    obtain ⟨c, rfl⟩ := Option.ne_none_iff_exists'.1 (Ne.symm ho)
    exact ⟨c :: ds, rfl⟩

theorem nodup_names_iff {ds : List Case} : (ds.map Case.name).Nodup ↔
    ∀ (i j : Nat) (c d : Case), (ds.map some)[i]? = some (some c) → (ds.map some)[j]? = some (some d) →
      c.name = d.name → i = j := by
  simp only [List.getElem?_map, Option.map_eq_some_iff, Option.some.injEq, exists_eq_right]
  constructor
  · intro h i j c d hc hd heq
    have hi : i < (ds.map Case.name).length := by
      rw [List.length_map]
      exact (List.getElem?_eq_some_iff.1 hc).1
    refine (List.getElem?_inj hi h).1 ?_
    rw [List.getElem?_map, List.getElem?_map, hc, hd, Option.map_some, Option.map_some, heq]
  · intro h
    rw [List.Nodup, List.pairwise_iff_getElem]
    intro i j hi hj hij heq
    rw [List.length_map] at hi hj
    rw [List.getElem_map, List.getElem_map] at heq
    have := h i j _ _ (List.getElem?_eq_getElem hi) (List.getElem?_eq_getElem hj) heq
    omega

theorem wellFormed_iff : WellFormed cs ↔ ∃ ds : List Case, cs = ds.map some ∧ (∀ d ∈ ds, d.Sound) ∧
    (ds.map Case.name).Nodup := by
  constructor
  · intro h
    obtain ⟨ds, rfl⟩ := exists_cases_of_present h.present
    refine ⟨ds, rfl, fun d hd => ?_, nodup_names_iff.2 h.distinct⟩
    have hmem : some d ∈ ds.map some := List.mem_map_of_mem hd
    exact ⟨h.named d hmem, h.input d hmem, h.output d hmem,
      Case.outcomeFault?_eq_none_iff.2 ⟨h.outcome d hmem, h.divergence d hmem⟩⟩
  · rintro ⟨ds, rfl, hsound, hnodup⟩
    have hcase {c : Case} (hc : some c ∈ ds.map some) : c.Sound := hsound c (by simpa using hc)
    exact ⟨by simp, fun c hc => (hcase hc).named, nodup_names_iff.1 hnodup,
      fun c hc => (hcase hc).input, fun c hc => (hcase hc).output,
      fun c hc => (Case.outcomeFault?_eq_none_iff.1 (hcase hc).outcome).1,
      fun c hc => (Case.outcomeFault?_eq_none_iff.1 (hcase hc).outcome).2⟩

/-- Validation accepts exactly the well-formed cases. -/
theorem validateFrom_eq_none_iff_wellFormed : (validateFrom 0 [] cs).2 = none ↔ WellFormed cs := by
  rw [wellFormed_iff]
  exact validate_eq_none_iff (s := ⟨0, cs⟩)

theorem WellFormed.take (h : WellFormed cs) (n : Nat) : WellFormed (cs.take n) := by
  obtain ⟨ds, rfl, hsound, hnodup⟩ := wellFormed_iff.1 h
  refine wellFormed_iff.2 ⟨ds.take n, List.map_take.symm, fun d hd => hsound d (List.mem_of_mem_take hd), ?_⟩
  exact hnodup.sublist ((List.take_sublist n ds).map Case.name)

/-! ### The first fault -/

/-- The fault of the case with number `i`, after cases with the names `seen`. -/
def faultOf? (i : Nat) (seen : List Text) : Option Case → Option Fault
  | none => some (.missing i)
  | some c => (c.validate i seen).2

/-- **The check stops at the first case that is wrong**: the cases before it pass, and it is at fault. -/
theorem validateFrom_eq_some (h : (validateFrom i seen cs).2 = some fault) :
    ∃ (ds : List Case) (o : Option Case) (rest : List (Option Case)), cs = ds.map some ++ o :: rest ∧
      (validateFrom i seen (ds.map some)).2 = none ∧
      (validateFrom i seen (ds.map some ++ [o])).2 = some fault ∧
      faultOf? (i + ds.length) ((ds.map Case.name).reverse ++ seen) o = some fault := by
  induction cs generalizing i seen with
  | nil => simp [validateFrom] at h
  | cons o cs ih =>
    cases o with
    | none =>
      have hfault : some (Fault.missing i) = some fault := h
      exact ⟨[], none, cs, rfl, rfl, hfault, hfault⟩
    | some c =>
      cases hc : (c.validate i seen).2 with
      | some f =>
        have hfault : some f = some fault := (validateFrom_cons_of_fault hc cs).symm.trans h
        exact ⟨[], some c, cs, rfl, rfl, (validateFrom_cons_of_fault hc []).trans hfault,
          hc.trans hfault⟩
      | none =>
        rw [validateFrom_cons hc] at h
        obtain ⟨ds, o, rest, rfl, hpass, hstop, hfault⟩ := ih h
        refine ⟨c :: ds, o, rest, rfl, ?_, ?_, ?_⟩
        · rw [List.map_cons, validateFrom_cons hc]
          exact hpass
        · rw [List.map_cons, List.cons_append, validateFrom_cons hc]
          exact hstop
        · rw [List.length_cons, Nat.add_comm ds.length, ← Nat.add_assoc, List.map_cons, List.reverse_cons,
            List.append_assoc]
          exact hfault

/-- Well-formed cases that the next one spoils are all that come before the first fault. -/
theorem isLeast_of_not_wellFormed {before : List (Option Case)} {o : Option Case}
    (rest : List (Option Case)) (hbefore : WellFormed before) (h : ¬ WellFormed (before ++ [o])) :
    IsLeast {n | ¬ WellFormed ((before ++ o :: rest).take (n + 1))} before.length := by
  refine ⟨fun hwf => ?_, fun n hn => ?_⟩
  · rw [List.append_cons, List.take_left' (by simp)] at hwf
    exact h hwf
  · -- fewer cases are cases before the one at fault
    by_contra hlt
    rw [Set.mem_ofPred_eq, List.take_append_of_le_length (by omega)] at hn
    exact hn (hbefore.take (n + 1))

theorem concerns_of_faultOf? {ds : List Case} {o : Option Case}
    (h : faultOf? ds.length (ds.map Case.name).reverse o = some fault) :
    fault.Concerns (ds.map some) o := by
  have hlength : (ds.map some).length = ds.length := List.length_map _
  rw [← hlength] at h
  cases o with
  | none =>
    obtain rfl := Option.some.inj h
    exact ⟨rfl, rfl⟩
  | some c =>
    refine Case.concerns_of_validate h fun name hname => ?_
    obtain ⟨d, hd, rfl⟩ := List.mem_map.1 (List.mem_reverse.1 hname)
    exact ⟨d, List.mem_map_of_mem hd, rfl⟩

theorem isPrefix_message (f : Fault) : utf8 "invalid suite: " <+: f.message :=
  List.prefix_append _ _

/-- **Validation finds the first fault.**  A suite is accepted exactly if it is well formed.  Otherwise it is
refused as an invalid suite, for a fault of the first case with which the cases so far are not well formed;
the fault names that case and tells the truth about it.  An accepted suite holds the terms of its sources,
whatever its cases held before. -/
theorem validation_finds_first_fault (s : Suite) :
    (s.validate.2 = none ↔ WellFormed s.cases) ∧
    (¬ WellFormed s.cases → ∃ (f : Fault) (i : Nat) (o : Option Case), s.validate.2 = some f ∧
      utf8 "invalid suite: " <+: f.message ∧ IsLeast {n | ¬ WellFormed (s.cases.take (n + 1))} i ∧
      s.cases[i]? = some o ∧ f.Concerns (s.cases.take i) o) ∧
    (s.validate.2 = none → ∃ cs ds : List Case, s.cases = cs.map some ∧
      s.validate.1 = ⟨s.maxSteps, ds.map some⟩ ∧ List.Forall₂ Case.Holds cs ds) := by
  have haccepted : s.validate.2 = none ↔ WellFormed s.cases := validateFrom_eq_none_iff_wellFormed
  refine ⟨haccepted, fun hnot => ?_, fun h => ?_⟩
  · obtain ⟨f, hf⟩ := Option.ne_none_iff_exists'.1 (mt haccepted.1 hnot)
    obtain ⟨ds, o, rest, hcases, hpass, hstop, hfault⟩ := validateFrom_eq_some hf
    rw [Nat.zero_add, List.append_nil] at hfault
    have hlength : (ds.map some).length = ds.length := List.length_map _
    have hstopped : ¬ WellFormed (ds.map some ++ [o]) := by
      rw [← validateFrom_eq_none_iff_wellFormed, hstop]
      exact Option.some_ne_none f
    have hleast := isLeast_of_not_wellFormed rest (validateFrom_eq_none_iff_wellFormed.1 hpass) hstopped
    rw [hlength, ← hcases] at hleast
    refine ⟨f, ds.length, o, hf, isPrefix_message f, hleast, ?_, ?_⟩
    · rw [hcases, List.getElem?_append_right hlength.le, hlength, Nat.sub_self, List.getElem?_cons_zero]
    · rw [hcases, List.take_left' hlength]
      exact concerns_of_faultOf? hfault
  · obtain ⟨cs, hcs, hsound, -⟩ := validate_eq_none_iff.1 h
    refine ⟨cs, cs.map Case.parsed, hcs, ?_, ?_⟩
    · rw [validate_fst h hcs, List.map_map]
    · rw [List.forall₂_map_right_iff, List.forall₂_same]
      exact fun c hc => (hsound c hc).holds_parsed

/-- A second case of one name before a missing one, and without both a case that held another term. -/
theorem validation_finds_second_name :
    let first : Case := { name := utf8 "a", input := utf8 "x: x", outputTerm := some (.var (utf8 "y")) }
    let second : Case := { name := utf8 "a", input := utf8 "(", outcome := utf8 "gone" }
    let s : Suite := { cases := [some first, some second, none] }
    let kept : Suite := { cases := [some first] }
    ¬ WellFormed s.cases ∧ s.validate.2 = some (.duplicate (utf8 "a")) ∧
      (∃ (i : Nat) (o : Option Case), IsLeast {n | ¬ WellFormed (s.cases.take (n + 1))} i ∧
        s.cases[i]? = some o ∧ (Fault.duplicate (utf8 "a")).Concerns (s.cases.take i) o) ∧
      kept.validate.2 = none ∧ ∃ cs ds : List Case, kept.cases = cs.map some ∧
        kept.validate.1 = ⟨kept.maxSteps, ds.map some⟩ ∧ List.Forall₂ Case.Holds cs ds := by
  intro first second s kept
  obtain ⟨haccepted, hrefused, -⟩ := validation_finds_first_fault s
  have hfault : s.validate.2 = some (.duplicate (utf8 "a")) := by decide +kernel
  have hnot : ¬ WellFormed s.cases := by
    rw [← haccepted, hfault]
    simp
  have hkept : kept.validate.2 = none := by decide +kernel
  obtain ⟨f, i, o, hf, -, hleast, ho, hconcerns⟩ := hrefused hnot
  obtain rfl : f = .duplicate (utf8 "a") := Option.some.inj (hf.symm.trans hfault)
  exact ⟨hnot, hfault, ⟨i, o, hleast, ho, hconcerns⟩, hkept,
    (validation_finds_first_fault kept).2.2 hkept⟩

end Suite

end CallByValue
