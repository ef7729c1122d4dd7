import CallByValue.Proofs.Run.Course
import CallByValue.Proofs.Run.Ring
import CallByValue.Run.Evaluator

/-!
# What an evaluator remembers

An evaluator is called again and again: to run a term, to switch tracing on or off, to give its trace
or its statistics.  What it answers is told by the history of the calls alone (`Evaluator.expected`):

* a run is the run of a new evaluator;
* the statistics are those of the latest run;
* the trace is there if the latest switch turned tracing on, and it has the last events of the latest
  run since then, as many as were asked for but at least one.

The invariant is `Evaluator.Remembers`, which every call keeps.  **Main theorem**
(`Evaluator.answers_by_history`): the answers are those of the history, and the events of a run are the
terms that it comes to, each with its number, up to the final term.
-/

namespace CallByValue

namespace Evaluator

/-! ### Calls and answers -/

/-- A call of an evaluator. -/
inductive Call where
  /-- Tracing is turned on. -/
  | enableTrace (capacity : Int)
  /-- Tracing is turned off. -/
  | disableTrace
  /-- A term is run, and cancelled at the given number of steps. -/
  | run (t : Term) (cancelAt : Option Nat)
  /-- The trace is asked for. -/
  | snapshot
  /-- The statistics are asked for. -/
  | stats

/-- The answer to a call. -/
inductive Answer where
  /-- Nothing. -/
  | done
  /-- The run of a term. -/
  | ran (r : Run)
  /-- The trace, if tracing is on. -/
  | trace (es : Option (List Event))
  /-- The statistics. -/
  | stats (s : Stats)

/-- The answer to a call and the evaluator after it. -/
def call (ev : Evaluator) : Call → Answer × Evaluator
  | .enableTrace n => (.done, ev.enableTrace n)
  | .disableTrace => (.done, ev.disableTrace)
  | .run t cancelAt => ((.ran (ev.run t cancelAt).1), (ev.run t cancelAt).2)
  | .snapshot => (.trace ev.snapshot, ev)
  | .stats => (.stats ev.stats, ev)

/-- The evaluator after a sequence of calls. -/
def after (ev : Evaluator) (calls : List Call) : Evaluator :=
  calls.foldl (fun ev c => (ev.call c).2) ev

/-! ### Histories

A history has the latest call first. -/

namespace Call

/-- Whether a call turns tracing on or off. -/
def isSwitch : Call → Bool
  | enableTrace _ => true
  | disableTrace => true
  | _ => false

/-- The run that a new evaluator answers to a call, if the call asks for one. -/
def fresh? (new : Evaluator) : Call → Option Run
  | run t cancelAt => some (new.run t cancelAt).1
  | _ => none

end Call

/-- The capacity asked for by the latest switch of a history, if it turned tracing on. -/
def tracing? (history : List Call) : Option Int :=
  match history.find? Call.isSwitch with
  | some (.enableTrace n) => some n
  | _ => none

/-- The statistics of the latest run of a history. -/
def latestStats (new : Evaluator) (history : List Call) : Stats :=
  (history.findSome? (Call.fresh? new)).elim {} Run.stats

/-- The events of the latest run of a history, if no switch followed it. -/
def latestEvents (new : Evaluator) (history : List Call) : List Event :=
  ((history.takeWhile (!·.isSwitch)).findSome? (Call.fresh? new)).elim [] Run.events

/-- The answer to a call after a history. -/
def expected (new : Evaluator) (history : List Call) : Call → Answer
  | .enableTrace _ => .done
  | .disableTrace => .done
  | .run t cancelAt => .ran (new.run t cancelAt).1
  | .snapshot =>
    .trace ((tracing? history).map fun n => (latestEvents new history).rtake (max 1 n.toNat))
  | .stats => .stats (latestStats new history)

/-! ### The invariant -/

/-- An evaluator that was new before a history. -/
structure Remembers (new : Evaluator) (history : List Call) (ev : Evaluator) : Prop where
  /-- What may stop a run is what it was. -/
  settings : ev.settings = new.settings
  /-- The statistics are those of the latest run. -/
  stats : ev.stats = latestStats new history
  /-- The ring holds the events of the latest run since tracing was turned on. -/
  trace : Option.Rel
    (fun n ring => ring.capacity = max 1 n.toNat ∧ ring.Holds (latestEvents new history))
    (tracing? history) ev.trace

variable {new ev : Evaluator} {history : List Call}

theorem run_eq_of_settings (h : ev.settings = new.settings) (t : Term) (cancelAt : Option Nat) :
    (ev.run t cancelAt).1 = (new.run t cancelAt).1 := by
  simp only [run, h]

namespace Remembers

theorem snapshot (h : Remembers new history ev) :
    ev.snapshot = (tracing? history).map fun n => (latestEvents new history).rtake (max 1 n.toNat) := by
  have htrace := h.trace
  rw [Evaluator.snapshot]
  generalize tracing? history = n?, ev.trace = ring? at htrace
  cases htrace with
  | none => rfl
  | some hring => simp [hring.2.toList, hring.1]

theorem answer (h : Remembers new history ev) (c : Call) :
    (ev.call c).1 = expected new history c := by
  cases c with
  | enableTrace n => rfl
  | disableTrace => rfl
  | run t cancelAt => exact congrArg Answer.ran (run_eq_of_settings h.settings t cancelAt)
  | snapshot => exact congrArg Answer.trace h.snapshot
  | stats => exact congrArg Answer.stats h.stats

/-- A run forgets the events of the run before it. -/
theorem run (h : Remembers new history ev) (t : Term) (cancelAt : Option Nat) :
    Remembers new (.run t cancelAt :: history) (ev.run t cancelAt).2 where
  settings := h.settings
  stats := by
    have hrun := run_eq_of_settings h.settings t cancelAt
    exact congrArg Run.stats hrun
  trace := by
    have htrace := h.trace
    change Option.Rel _ (tracing? history)
      (ev.trace.map fun ring => (ev.run t cancelAt).1.events.foldl Ring.record ring.reset)
    generalize tracing? history = n?, ev.trace = ring? at htrace
    cases htrace with
    | none => exact .none
    | @some n ring hring =>
      obtain ⟨hholds, hcap⟩ := ring.holds_reset.foldl_record (new.run t cancelAt).1.events
      rw [Option.map_some, run_eq_of_settings h.settings]
      exact .some ⟨hcap.trans (ring.capacity_reset.trans hring.1), hholds⟩

/-- Every call keeps the invariant. -/
theorem call (h : Remembers new history ev) (c : Call) :
    Remembers new (c :: history) (ev.call c).2 := by
  cases c with
  | enableTrace n => exact ⟨h.settings, h.stats, .some ⟨Ring.capacity_empty n, Ring.holds_empty n⟩⟩
  | disableTrace => exact ⟨h.settings, h.stats, .none⟩
  | run t cancelAt => exact h.run t cancelAt
  | snapshot => exact ⟨h.settings, h.stats, h.trace⟩
  | stats => exact ⟨h.settings, h.stats, h.trace⟩

theorem after (h : Remembers new history ev) (calls : List Call) :
    Remembers new (calls.reverse ++ history) (ev.after calls) := by
  induction calls generalizing history ev with
  | nil => exact h
  | cons c calls ih => simpa [Evaluator.after] using ih (h.call c)

end Remembers

theorem remembers_new (maxSteps : Nat) (budget : Option Budget) :
    Remembers { maxSteps, budget } [] { maxSteps, budget } := ⟨rfl, rfl, .none⟩

end Evaluator

/-! ### The events of a run -/

theorem Term.map_some_trail {t u : Term} {k : Nat} (h : t.after k = some u) :
    (t.trail (k + 1)).map some = (List.range (k + 1)).map fun i => (t.after i).map (Event.of i) := by
  induction k generalizing u with
  | zero => simp [Term.trail, h]
  | succ k ih =>
    obtain ⟨v, hv⟩ := Term.exists_after_of_le h (Nat.le_succ k)
    rw [Term.trail_succ h, List.range_succ, List.map_append, List.map_append, ih hv]
    simp [h]

/-- The last events of a run end with its last event. -/
theorem Run.getLast?_rtake_events (r : Run) {n : Nat} (hn : 0 < n) :
    (r.events.rtake n).getLast? = some r.last := by
  have hle : r.events.length - n ≤ r.earlier.length := by
    rw [Run.events, List.length_append, List.length_singleton]
    omega
  rw [List.rtake, Run.events, List.drop_append_of_le_length (by simpa [Run.events] using hle)]
  simp

namespace Evaluator

/-- **The answers of an evaluator are those of its history.**  Whatever was called before, a run is that
of a new evaluator, the statistics are those of the latest run, and the trace has the last events of the
latest run since tracing was turned on, if it is on.  The events of a run are the terms of the sequence
with their numbers up to the final term, with which every trace of the run ends. -/
theorem answers_by_history (maxSteps : Nat) (budget : Option Budget) (calls : List Call) (c : Call)
    (t : Term) (cancelAt : Option Nat) (n : Int) :
    let new : Evaluator := { maxSteps, budget }
    let r := (new.run t cancelAt).1
    ((new.after calls).call c).1 = expected new calls.reverse c ∧
      r.events.map some =
        (List.range (r.stats.steps + 1)).map (fun i => (t.after i).map (Event.of i)) ∧
      t.after r.stats.steps = some r.term ∧
      (r.events.rtake (max 1 n.toNat)).getLast? = some (Event.of r.stats.steps r.term) := by
  intro new r
  obtain ⟨k, u, e, hcourse, hrun⟩ :=
    (new.settings cancelAt).exists_course Settings.horizon t
  have hr : r = .along t k u e := hrun
  have hsteps : r.stats.steps = k := hr ▸ hcourse.stats.1
  rw [hsteps, Run.getLast?_rtake_events r (by omega), hr, hcourse.events]
  refine ⟨?_, Term.map_some_trail hcourse.reached, hcourse.reached, rfl⟩
  have hremembers := (remembers_new maxSteps budget).after calls
  rw [List.append_nil] at hremembers
  exact hremembers.answer c

end Evaluator

end CallByValue
