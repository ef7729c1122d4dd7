import CallByValue.Proofs.Run.Course
import CallByValue.Proofs.Term.Alpha
import CallByValue.Run.Evaluator
import Mathlib.Data.List.Forall2

/-!
# Runs of alpha-equal terms

Two runs of alpha-equal terms choose different fresh names and drift apart in their texts, but they
stay in lockstep: at every event they take the same decision, because a decision sees only the number
of steps, the size and the depth of a term and whether it has a step (`Settings.decision_alike`).  So
they go through alike events and end in the same way (`Settings.runFrom_alike`).
-/

namespace CallByValue

/-- Events that differ only in the bound names of their terms. -/
structure Event.Alike (d e : Event) : Prop where
  step : d.step = e.step
  term : d.term.alphaEq e.term = true
  size : d.size = e.size
  depth : d.depth = e.depth

/-- Decisions that differ only in the bound names of the next term. -/
inductive Decision.Alike : Decision → Decision → Prop
  | stop (e : Ending) : Decision.Alike (.stop e) (.stop e)
  | go {t u : Term} : t.alphaEq u = true → Decision.Alike (.go t) (.go u)

/-- Runs that differ only in the bound names of their terms: they end in the same way, for the same
reason and with the same statistics, and pass through alpha-equal terms. -/
structure Run.Alike (r q : Run) : Prop where
  ending : r.ending = q.ending
  outcome : r.outcome = q.outcome
  stats : r.stats = q.stats
  term : r.term.alphaEq q.term = true
  events : List.Forall₂ Event.Alike r.events q.events

namespace Term

variable {t u r q : Term}

theorem alphaEq_subst (x : Name) (ht : t.alphaEq u = true) (hr : r.alphaEq q = true) :
    (t.subst r x).alphaEq (u.subst q x) = true := by
  rw [alphaEq_iff_nameless_eq] at ht hr ⊢
  exact nameless_subst_congr x ht hr

theorem alphaEq_reduce (h : t.alphaEq u = true) :
    Option.Rel (fun t u => t.alphaEq u = true) t.reduce u.reduce := by
  have hmap := map_nameless_reduce_congr (alphaEq_iff_nameless_eq.1 h)
  cases ht : t.reduce with
  | none =>
    cases hu : u.reduce with
    | none => exact .none
    | some u' => simp [ht, hu] at hmap
  | some t' =>
    cases hu : u.reduce with
    | none => simp [ht, hu] at hmap
    | some u' => exact .some (alphaEq_iff_nameless_eq.2 (by simpa [ht, hu] using hmap))

end Term

theorem Event.alike_of {t u : Term} (n : Nat) (h : t.alphaEq u = true) :
    (Event.of n t).Alike (Event.of n u) where
  step := rfl
  term := h
  size := Term.size_eq_of_nameless_eq (Term.alphaEq_iff_nameless_eq.1 h)
  depth := Term.depth_eq_of_nameless_eq (Term.alphaEq_iff_nameless_eq.1 h)

theorem Event.Alike.reading {d e : Event} (h : d.Alike e) : d.reading = e.reading := by
  simp only [Event.reading, h.step, h.size, h.depth]

theorem Stats.foldl_observe_alike {ds es : List Event} (h : List.Forall₂ Event.Alike ds es)
    (s : Stats) : ds.foldl Stats.observe s = es.foldl Stats.observe s := by
  induction h generalizing s with
  | nil => rfl
  | cons hde _ ih =>
    rw [List.foldl_cons, List.foldl_cons, ih, Stats.observe, Stats.observe, hde.step, hde.size,
      hde.depth]

namespace Settings

variable (s : Settings)

theorem objection?_alike {d e : Event} (h : d.Alike e) : s.objection? d = s.objection? e := by
  simp only [objection?, h.reading]

/-- One step of the lockstep: alike events lead to alike decisions. -/
theorem decision_alike {d e : Event} (h : d.Alike e) : (s.decision d).Alike (s.decision e) := by
  rw [decision, decision, s.objection?_alike h, h.step]
  cases s.objection? e with
  | some o => exact .stop _
  | none =>
    dsimp only
    -- of the terms the rest only sees whether they have a next one
    have hred := Term.alphaEq_reduce h.term
    generalize d.term.reduce = t?, e.term.reduce = u? at hred
    by_cases hc : s.cancelledAt e.step = true
    · rw [if_pos hc, if_pos hc]
      exact .stop _
    · rw [if_neg hc, if_neg hc]
      cases hred with
      | none => exact .stop _
      | some hnext =>
        dsimp only
        by_cases hl : s.limitReached e.step = true
        · rw [if_pos hl, if_pos hl]
          exact .stop _
        · rw [if_neg hl, if_neg hl]
          exact .go hnext

/-- What the runs have in common from two alpha-equal terms on, if they do so up to there. -/
theorem runFrom_alike (fuel n : Nat) {ds es : List Event} {t u : Term}
    (hseen : List.Forall₂ Event.Alike ds es) (h : t.alphaEq u = true) :
    (s.runFrom fuel ds n t).ending = (s.runFrom fuel es n u).ending ∧
      (s.runFrom fuel ds n t).last.Alike (s.runFrom fuel es n u).last ∧
      List.Forall₂ Event.Alike (s.runFrom fuel ds n t).earlier (s.runFrom fuel es n u).earlier := by
  have hev := Event.alike_of n h
  have hrev := List.rel_reverse hseen
  induction fuel generalizing n ds es t u with
  | zero =>
    have hdec := s.decision_alike hev
    generalize ht : s.decision (Event.of n t) = d, hu : s.decision (Event.of n u) = d' at hdec
    cases hdec with
    | stop e =>
      rw [runFrom_stop ht, runFrom_stop hu]
      exact ⟨rfl, hev, hrev⟩
    | go hnext =>
      rw [runFrom_zero_go ht, runFrom_zero_go hu]
      exact ⟨rfl, hev, hrev⟩
  | succ fuel ih =>
    have hdec := s.decision_alike hev
    generalize ht : s.decision (Event.of n t) = d, hu : s.decision (Event.of n u) = d' at hdec
    cases hdec with
    | stop e =>
      rw [runFrom_stop ht, runFrom_stop hu]
      exact ⟨rfl, hev, hrev⟩
    | go hnext =>
      -- both runs go on, one event further and with terms that are alpha-equal again
      rw [runFrom_succ_go ht, runFrom_succ_go hu]
      have hseen' := List.Forall₂.cons hev hseen
      exact ih (n + 1) hseen' hnext (Event.alike_of _ hnext) (List.rel_reverse hseen')

theorem run_alike {t u : Term} (h : t.alphaEq u = true) : (s.run t).Alike (s.run u) := by
  obtain ⟨hending, hlast, hearlier⟩ := s.runFrom_alike horizon 0 .nil h
  have hevents := List.rel_append hearlier (.cons hlast .nil)
  refine ⟨hending, ?_, Stats.foldl_observe_alike hevents _, hlast.term, hevents⟩
  have hvalue := Term.isValue_eq_of_nameless_eq (Term.alphaEq_iff_nameless_eq.1 hlast.term)
  simp only [Run.outcome, Run.term, run, hending, hvalue]
  rfl

end Settings

/-- **Evaluation does not see bound names**: alpha-equal terms have alike runs under every limit,
budget and cancellation, and alpha-equality is kept by every step and by substitution. -/
theorem Evaluator.run_alike_of_alphaEq {a b : Term} (h : a.alphaEq b = true) :
    (∀ (ev : Evaluator) (cancelAt : Option Nat),
      (ev.run a cancelAt).1.Alike (ev.run b cancelAt).1) ∧
    Option.Rel (fun t u => t.alphaEq u = true) a.reduce b.reduce ∧
    ∀ {r q : Term} (x : Name), r.alphaEq q = true →
      (a.subst r x).alphaEq (b.subst q x) = true := by
  refine ⟨fun ev cancelAt => ?_, Term.alphaEq_reduce h, fun x hr => Term.alphaEq_subst x h hr⟩
  exact (ev.settings cancelAt).run_alike h

/-- Two redexes that differ in one bound name: contracting the first one renames it, contracting the
second one does not. -/
theorem Evaluator.run_alike_renamed_redex :
    let a : Term := .app (.abs (utf8 "x") (.abs (utf8 "y") (.var (utf8 "x"))))
      (.abs (utf8 "z") (.var (utf8 "y")))
    let b : Term := .app (.abs (utf8 "x") (.abs (utf8 "w") (.var (utf8 "x"))))
      (.abs (utf8 "z") (.var (utf8 "y")))
    a.alphaEq b = true ∧ (({} : Evaluator).run a none).1.Alike (({} : Evaluator).run b none).1 :=
  ⟨by decide, (run_alike_of_alphaEq (by decide)).1 {} none⟩

end CallByValue
