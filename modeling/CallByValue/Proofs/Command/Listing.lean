import CallByValue.Command.Reduce
import CallByValue.Proofs.Run.Course
import Mathlib.Data.List.Basic

/-!
# The listing of a run

Two commands reduce a term.  One prints the last term of the run, the other one lists every term, with
its number, as it is or as the difference from the one before (`Command.Step.listing`).  The listing is
written event by event, each time with the term before at hand; seen as a whole it has an entry for every
number up to the last one, and the text of an entry is a function of the terms of the sequence
(`Command.Step.entries_range`).

**Main theorem** (`Command.listing_agrees_with_result`): the two commands agree.  The last entry shows
what the other command prints, and both end with the same error, in whichever way the run ends.
-/

namespace CallByValue

namespace Term

/-- The `i`-th term in the sequence of a term, where the sequence is that long. -/
def nth (t : Term) (i : Nat) : Term := (t.after i).getD t

variable {t u : Term} {n : Nat}

theorem after_eq_nth (h : t.after n = some u) {i : Nat} (hi : i ≤ n) :
    t.after i = some (t.nth i) := by
  obtain ⟨v, hv⟩ := exists_after_of_le h hi
  rw [nth, hv, Option.getD_some]

theorem trail_eq_map_nth (h : t.after n = some u) :
    t.trail (n + 1) = (List.range (n + 1)).map fun i => Event.of i (t.nth i) := by
  rw [trail, ← List.filterMap_eq_map']
  refine List.filterMap_congr fun i hi => ?_
  rw [after_eq_nth h (Nat.le_of_lt_succ (List.mem_range.1 hi)), Option.map_some]

end Term

namespace Command

/-! ### The entries -/

namespace Step

/-- An entry of a listing: a number and a text. -/
def line (i : Nat) (text : Text) : Text :=
  Text.ofNatPadded 4 i ++ utf8 "  " ++ text ++ utf8 "\n"

/-- The listing of a run of `n` steps: an entry for every term, with its number and the text that is
given for it, and then how the run ended. -/
def listing (n : Nat) (text : Nat → Text) (o : Outcome) : Text :=
  ((List.range (n + 1)).flatMap fun i => line i (text i)) ++ utf8 "-- " ++ o.toText ++
    utf8 " after " ++ Text.ofNat n ++ utf8 " steps\n"

variable (c : Step) (term : Nat → Term)

/-- The entries behind the `k`-th term. -/
theorem entriesAfter_range' (k m : Nat) :
    c.entriesAfter (term k) ((List.range' (k + 1) m).map fun i => Event.of i (term i)) =
      (List.range' (k + 1) m).flatMap fun i =>
        line i (c.shownAfter (term (i - 1)) (term i)) := by
  induction m generalizing k with
  | zero => rfl
  | succ m ih =>
    -- the term of this event is the one before the next event
    rw [List.range'_succ, List.map_cons, entriesAfter, List.flatMap_cons]
    exact congrArg (line (k + 1) (c.shownAfter (term k) (term (k + 1))) ++ ·) (ih (k + 1))

theorem entries_range (n : Nat) :
    c.entries ((List.range (n + 1)).map fun i => Event.of i (term i)) =
      (List.range (n + 1)).flatMap fun i =>
        line i (if i = 0 then c.shown (term 0) else c.shownAfter (term (i - 1)) (term i)) := by
  rw [List.range_eq_range', List.range'_succ, List.map_cons, entries, List.flatMap_cons]
  refine congrArg₂ (· ++ ·) rfl ?_
  show c.entriesAfter (term 0) _ = _
  rw [c.entriesAfter_range' term 0 n]
  refine List.flatMap_congr fun i hi => ?_
  have hpos := (List.mem_range'_1.1 hi).1
  rw [if_neg (by omega)]

end Step

/-! ### The commands -/

/-- What may stop the run of either command, where there is no budget. -/
def settingsOf (limit : Int) (cancelled : Bool) : Settings where
  maxSteps := limit.toNat
  cancelAt := cancelAt cancelled

section Reports

variable {t u : Term} {n : Nat} {e : Ending} {r : Run}

theorem Eval.report {c : Eval} (hlimit : 0 ≤ c.maxSteps) (hbudget : c.budget = [])
    (hr : (settingsOf c.maxSteps c.cancelled).run t = r) :
    (c.run t).out = Printer.unicode.print (paletteOf c.color) r.term ++ utf8 "\n" ∧
      (c.run t).error = runError? r := by
  have hsettings : c.settings = .ok (settingsOf c.maxSteps c.cancelled) := by
    unfold Eval.settings
    rw [if_neg (by omega), if_pos hbudget]
    rfl
  subst hr
  unfold Eval.run
  rw [hsettings]
  exact ⟨rfl, rfl⟩

theorem Step.report {c : Step} (hlimit : 0 ≤ c.maxSteps)
    (hr : (settingsOf c.maxSteps c.cancelled).run t = r) :
    (c.run t).out = c.entries r.events ++ utf8 "-- " ++ r.outcome.toText ++ utf8 " after " ++
        Text.ofNat r.stats.steps ++ utf8 " steps\n" ∧
      (c.run t).error = runError? r := by
  subst hr
  unfold Step.run
  rw [if_neg (by omega)]
  exact ⟨rfl, rfl⟩

/-- What is listed of a run along the sequence of its term. -/
theorem Step.report_along {c : Step} (hlimit : 0 ≤ c.maxSteps) (hu : t.after n = some u)
    (hr : (settingsOf c.maxSteps c.cancelled).run t = .along t n u e) :
    (c.run t).out = listing n
      (fun i => if i = 0 then c.shown (t.nth 0) else c.shownAfter (t.nth (i - 1)) (t.nth i))
      (Run.along t n u e).outcome := by
  have hevents : (Run.along t n u e).events =
      (List.range (n + 1)).map fun i => Event.of i (t.nth i) :=
    (Term.trail_succ hu).symm.trans (Term.trail_eq_map_nth hu)
  rw [(report hlimit hr).1, hevents, Run.steps_along, c.entries_range, listing]

end Reports

/-- **The two commands agree.**  If the run of a term takes `n` steps, the listing has the entries `0` to
`n`, which show the terms of the sequence; the text of the last one is the line that the other command
prints, and both commands end with the same error, whatever ended the run.  With differences the first
entry is the same, and a later one is the difference of the plain texts of its term and of the one
before. -/
theorem listing_agrees_with_result (t : Term) (limit : Int) (hlimit : 0 ≤ limit)
    (color cancelled verbose verbose' stats : Bool) :
    let step (diff : Bool) : Report := Step.run { maxSteps := limit, diff, color, verbose, cancelled } t
    let eval : Report := Eval.run { maxSteps := limit, stats, color, verbose := verbose', cancelled } t
    let r := (settingsOf limit cancelled).run t
    let n := r.stats.steps
    let shown (u : Term) : Text := Printer.unicode.print (paletteOf color) u
    let plain (u : Term) : Text := Printer.unicode.print .plain u
    ∃ term : Nat → Term, (∀ i ≤ n, t.after i = some (term i)) ∧
      (step false).out = Step.listing n (fun i => shown (term i)) r.outcome ∧
      eval.out = shown (term n) ++ utf8 "\n" ∧
      (step false).error = eval.error ∧
      (step true).out = Step.listing n (fun i => if i = 0 then shown (term 0)
        else (plain (term (i - 1))).diff (plain (term i)) (palette? color)) r.outcome ∧
      (step true).error = eval.error := by
  intro step eval r n shown plain
  obtain ⟨k, u, e, hcourse, hrun⟩ :=
    (settingsOf limit cancelled).exists_course Settings.horizon t
  have hr : r = .along t k u e := hrun
  have hn : n = k := by
    show r.stats.steps = k
    rw [hr, Run.steps_along]
  have hu : u = t.nth k := Option.some.inj (hcourse.reached.symm.trans
    (Term.after_eq_nth hcourse.reached (Nat.le_refl k)))
  -- the three commands, with one and the same run
  let plainStep : Step := { maxSteps := limit, color, verbose, cancelled }
  let diffStep : Step := { maxSteps := limit, diff := true, color, verbose, cancelled }
  obtain ⟨heval, herror⟩ := Eval.report
    (c := { maxSteps := limit, stats, color, verbose := verbose', cancelled }) hlimit rfl hrun
  have hplain := Step.report_along (c := plainStep) hlimit hcourse.reached hrun
  have hdiff := Step.report_along (c := diffStep) hlimit hcourse.reached hrun
  refine ⟨t.nth, fun i hi => Term.after_eq_nth hcourse.reached (hn ▸ hi), ?_, ?_,
    (Step.report (c := plainStep) hlimit hrun).2.trans herror.symm, ?_,
    (Step.report (c := diffStep) hlimit hrun).2.trans herror.symm⟩
  · -- without differences the first entry is shown like all others
    rw [hn, hr]
    refine hplain.trans (congrArg (Step.listing k · _) (funext fun i => ?_))
    split_ifs with hi
    · rw [hi]
      rfl
    · rfl
  · rw [hn, ← hu]
    exact heval
  · rw [hn, hr]
    exact hdiff

/-- A term of two steps, in colours and with a limit that it does not reach. -/
theorem listing_agrees_with_result_at_value :
    let identity (x : Text) : Term := .abs x (.var x)
    let middle := Term.app (identity (utf8 "x")) (identity (utf8 "z"))
    let t := Term.app (identity (utf8 "x")) (.app (identity (utf8 "y")) (identity (utf8 "z")))
    let step : Report := Step.run { maxSteps := 5, color := true } t
    let eval : Report := Eval.run { maxSteps := 5, color := true } t
    (0 : Int) ≤ 5 ∧ ∃ term : Nat → Term, term 0 = t ∧ term 1 = middle ∧ term 2 = identity (utf8 "z") ∧
      step.out = Step.listing 2 (fun i => Printer.unicode.print .colours (term i)) .value ∧
      eval.out = Printer.unicode.print .colours (term 2) ++ utf8 "\n" ∧ step.error = eval.error := by
  intro identity middle t step eval
  have hsteps : ((settingsOf 5 false).run t).stats.steps = 2 := by decide +kernel
  have hvalue : ((settingsOf 5 false).run t).outcome = .value := by decide +kernel
  obtain ⟨term, hterm, hstep, heval, herror, -⟩ :=
    listing_agrees_with_result t 5 (by decide) true false false false false
  dsimp only at hterm hstep heval
  rw [hsteps] at hterm hstep heval
  rw [hvalue] at hstep
  have hfirst : t.after 1 = some middle := by decide +kernel
  have hlast : t.after 2 = some (identity (utf8 "z")) := by decide +kernel
  refine ⟨by decide, term, ?_, ?_, ?_, hstep, heval, herror⟩
  · exact (Option.some.inj (hterm 0 (by omega))).symm
  · exact Option.some.inj ((hterm 1 (by omega)).symm.trans hfirst)
  · exact Option.some.inj ((hterm 2 (by omega)).symm.trans hlast)

end Command

end CallByValue
