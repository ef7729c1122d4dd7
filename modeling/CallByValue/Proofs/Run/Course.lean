import CallByValue.Proofs.Term.Reduce
import CallByValue.Run.Basic
import Mathlib.Order.Bounds.Basic

/-!
# The course of a run

After each of its decisions a run ends, where it stops, or goes on with the next term, unless no further
step can be counted (`Settings.runFrom_stop`, `Settings.runFrom_succ_go`).

A run follows the sequence of its term: it goes from one term to the next as long as its decisions say
so, and it ends at the first term where a decision stops it or where no further step can be counted
(`Settings.Course`).  Every run has a course (`Settings.exists_course`), which says all there is to say
about it: its events are those of the sequence up to the last term, and its statistics are the number
of the last term and the greatest size and depth among the terms (`Settings.Course.stats`).
-/

namespace CallByValue

/-! ### One decision -/

namespace Settings

variable {s : Settings} {fuel n : Nat} {seen : List Event} {t u : Term} {e : Ending}

theorem runFrom_stop (h : s.decision (Event.of n t) = .stop e) :
    s.runFrom fuel seen n t = ⟨seen.reverse, Event.of n t, e⟩ := by
  cases fuel <;> rw [runFrom, h]

theorem runFrom_zero_go (h : s.decision (Event.of n t) = .go u) :
    s.runFrom 0 seen n t = ⟨seen.reverse, Event.of n t, .unfinished⟩ := by
  rw [runFrom, h]

theorem runFrom_succ_go (h : s.decision (Event.of n t) = .go u) :
    s.runFrom (fuel + 1) seen n t = s.runFrom fuel (Event.of n t :: seen) (n + 1) u := by
  rw [runFrom, h]

end Settings

/-! ### The events of a sequence -/

namespace Term

/-- The events of the first `k` terms in the sequence of a term. -/
def trail (t : Term) (k : Nat) : List Event :=
  (List.range k).filterMap fun i => (t.after i).map (Event.of i)

variable {t u : Term} {k : Nat}

theorem trail_succ (h : t.after k = some u) : t.trail (k + 1) = t.trail k ++ [Event.of k u] := by
  simp [trail, List.range_succ, h]

theorem mem_trail {e : Event} :
    e ∈ t.trail k ↔ ∃ i < k, ∃ v, t.after i = some v ∧ e = Event.of i v := by
  simp [trail, eq_comm]

end Term

/-- The run along the sequence of `t` to its `k`-th term `u`. -/
def Run.along (t : Term) (k : Nat) (u : Term) (e : Ending) : Run := ⟨t.trail k, Event.of k u, e⟩

theorem Run.steps_along (t : Term) (k : Nat) (u : Term) (e : Ending) :
    (Run.along t k u e).stats.steps = k := by
  rw [Run.stats, Run.events, List.foldl_append]
  rfl

/-! ### Peaks -/

namespace Stats

/-- A number that each event raises to at least its measure ends up as the greatest measure. -/
theorem isGreatest_foldl {p : Stats → Nat} {μ : Event → Nat}
    (hp : ∀ s e, p (s.observe e) = max (p s) (μ e)) (es : List Event) (s : Stats) :
    IsGreatest {k | k = p s ∨ ∃ e ∈ es, μ e = k} (p (es.foldl observe s)) := by
  induction es generalizing s with
  | nil => simp [IsGreatest, upperBounds]
  | cons e es ih =>
    obtain ⟨hmem, hup⟩ := ih (s.observe e)
    rw [List.foldl_cons]
    have hbound := hup (Or.inl rfl)
    rw [hp] at hbound
    refine ⟨?_, ?_⟩
    · rcases hmem with hmax | ⟨d, hd, hk⟩
      · -- no later event is greater: the greatest is either `e` or what there was before
        rw [hmax, hp]
        rcases Nat.le_total (p s) (μ e) with hle | hle
        · exact .inr ⟨e, List.mem_cons_self, (Nat.max_eq_right hle).symm⟩
        · exact .inl (Nat.max_eq_left hle)
      · exact .inr ⟨d, List.mem_cons_of_mem e hd, hk⟩
    · rintro k (rfl | ⟨d, hd, rfl⟩)
      · exact Nat.le_trans (Nat.le_max_left ..) hbound
      · rcases List.mem_cons.1 hd with rfl | hd
        · exact Nat.le_trans (Nat.le_max_right ..) hbound
        · exact hup (.inr ⟨d, hd, rfl⟩)

theorem isGreatest_of_zero {p : Stats → Nat} {μ : Event → Nat}
    (hp : ∀ s e, p (s.observe e) = max (p s) (μ e)) (hzero : p {} = 0) {es : List Event}
    (hes : es ≠ []) : IsGreatest {k | ∃ e ∈ es, μ e = k} (p (es.foldl observe {})) := by
  obtain ⟨hmem, hup⟩ := isGreatest_foldl hp es {}
  refine ⟨?_, fun k hk => hup (.inr hk)⟩
  rcases hmem with h | h
  · -- the greatest is zero, and so is the measure of any event
    obtain ⟨e, he⟩ := List.exists_mem_of_ne_nil es hes
    have hle := hup (.inr ⟨e, he, rfl⟩)
    rw [h, hzero] at hle ⊢
    exact ⟨e, he, Nat.le_zero.1 hle⟩
  · exact h

end Stats

/-! ### Courses -/

namespace Settings

variable (s : Settings)

/-- The run of `t` goes on for `k` steps, at most `bound`, and ends at `u` in the given way. -/
structure Course (bound : Nat) (t : Term) (k : Nat) (u : Term) (e : Ending) : Prop where
  /-- No more steps are counted. -/
  le_bound : k ≤ bound
  /-- The last term is in the sequence. -/
  reached : t.after k = some u
  /-- The run goes on from every term before the last one. -/
  goes : ∀ m < k, ∀ v, t.after m = some v → ∃ w, s.decision (Event.of m v) = .go w
  /-- At the last term it stops, or it would go on but cannot count any further. -/
  ends : s.decision (Event.of k u) = .stop e ∨
    e = .unfinished ∧ k = bound ∧ ∃ w, s.decision (Event.of k u) = .go w

/-- Where the loop of a run of `t` stands: at the `n`-th term, with all events before it seen. -/
structure Reached (t : Term) (n : Nat) (seen : List Event) (u : Term) : Prop where
  /-- The current term is in the sequence. -/
  reached : t.after n = some u
  /-- The events so far, the latest first. -/
  seen : seen.reverse = t.trail n
  /-- The run went on from every term before. -/
  goes : ∀ m < n, ∀ v, t.after m = some v → ∃ w, s.decision (Event.of m v) = .go w

variable {s} {t u v w : Term} {n k bound : Nat} {seen : List Event} {e : Ending}

/-- A run goes on only with the next term of the sequence and below the limit. -/
theorem of_decision_go (h : s.decision (Event.of n u) = .go w) :
    u.reduce = some w ∧ s.limitReached n = false := by
  rw [decision] at h
  split at h
  · simp at h
  · split at h
    · simp at h
    · split at h
      · simp at h
      · next v hv =>
        split at h
        · simp at h
        · next hlim =>
          exact ⟨hv.trans (congrArg some (Decision.go.inj h)), Bool.eq_false_of_not_eq_true hlim⟩

/-- One round of the loop. -/
theorem Reached.next (h : s.Reached t n seen u) (hgo : s.decision (Event.of n u) = .go w) :
    s.Reached t (n + 1) (Event.of n u :: seen) w where
  reached := by
    rw [Term.after_succ, h.reached]
    exact (of_decision_go hgo).1
  seen := by rw [List.reverse_cons, h.seen, Term.trail_succ h.reached]
  goes := by
    intro m hm v hv
    rcases Nat.lt_succ_iff_lt_or_eq.1 hm with hlt | rfl
    · exact h.goes m hlt v hv
    · rw [h.reached] at hv
      exact ⟨w, Option.some.inj hv ▸ hgo⟩

theorem Reached.course_of_stop (h : s.Reached t n seen u)
    (hstop : s.decision (Event.of n u) = .stop e) (fuel : Nat) :
    s.Course (n + fuel) t n u e ∧ s.runFrom fuel seen n u = .along t n u e := by
  refine ⟨⟨Nat.le_add_right n fuel, h.reached, h.goes, .inl hstop⟩, ?_⟩
  rw [runFrom_stop hstop, h.seen, Run.along]

/-- The loop from any of its places on. -/
theorem Reached.exists_course (h : s.Reached t n seen u) (fuel : Nat) :
    ∃ k v e, s.Course (n + fuel) t k v e ∧ s.runFrom fuel seen n u = .along t k v e := by
  induction fuel generalizing n seen u with
  | zero =>
    cases hd : s.decision (Event.of n u) with
    | stop e => exact ⟨n, u, e, h.course_of_stop hd 0⟩
    | go w =>
      refine ⟨n, u, .unfinished, ⟨Nat.le_refl n, h.reached, h.goes, .inr ⟨rfl, rfl, w, hd⟩⟩, ?_⟩
      rw [runFrom_zero_go hd, h.seen, Run.along]
  | succ fuel ih =>
    cases hd : s.decision (Event.of n u) with
    | stop e => exact ⟨n, u, e, h.course_of_stop hd (fuel + 1)⟩
    | go w =>
      rw [runFrom_succ_go hd, ← Nat.succ_add_eq_add_succ]
      exact ih (h.next hd)

/-- **Every run has a course.** -/
theorem exists_course (s : Settings) (fuel : Nat) (t : Term) :
    ∃ k u e, s.Course fuel t k u e ∧ s.runFrom fuel [] 0 t = .along t k u e := by
  have hstart : s.Reached t 0 [] t := ⟨rfl, rfl, by omega⟩
  simpa using hstart.exists_course fuel

namespace Course

/-- A run ends at the first term where it is stopped. -/
theorem eq_of_stop (h : s.Course bound t k u e) (hn : n ≤ bound) (hv : t.after n = some v)
    {e' : Ending} (hstop : s.decision (Event.of n v) = .stop e')
    (hgoes : ∀ m < n, ∀ w, t.after m = some w → ∃ w', s.decision (Event.of m w) = .go w') :
    k = n ∧ u = v ∧ e = e' := by
  have hkn : k = n := by
    rcases Nat.lt_trichotomy k n with hlt | heq | hlt
    · -- it would have to stop earlier, or to have no further step to count
      obtain ⟨w, hw⟩ := hgoes k hlt u h.reached
      rcases h.ends with hs | ⟨-, hbound, -⟩
      · rw [hw] at hs
        exact absurd hs (by simp)
      · omega
    · exact heq
    · obtain ⟨w, hw⟩ := h.goes n hlt v hv
      rw [hw] at hstop
      exact absurd hstop (by simp)
  subst hkn
  have huv : u = v := Option.some.inj (h.reached.symm.trans hv)
  subst huv
  refine ⟨rfl, rfl, ?_⟩
  rcases h.ends with hs | ⟨-, -, w, hw⟩
  · exact Decision.stop.inj (hs.symm.trans hstop)
  · rw [hw] at hstop
    exact absurd hstop (by simp)

variable (h : s.Course bound t k u e)

include h

theorem le_maxSteps (hpos : 0 < s.maxSteps) : k ≤ s.maxSteps := by
  refine Term.le_of_forall_ne h.reached fun m hm v hv heq => ?_
  obtain ⟨w, hw⟩ := h.goes m hm v hv
  exact absurd (of_decision_go hw).2 (by simp [limitReached, hpos, heq])

/-- The events of a run are those of the sequence up to the last term. -/
theorem events : (Run.along t k u e).events = t.trail (k + 1) :=
  (Term.trail_succ h.reached).symm

theorem isGreatest_peak {p : Stats → Nat} {μ : Event → Nat}
    (hp : ∀ s e, p (s.observe e) = max (p s) (μ e)) (hzero : p {} = 0) :
    IsGreatest {j | ∃ m ≤ k, ∃ v, t.after m = some v ∧ μ (Event.of m v) = j}
      (p (Run.along t k u e).stats) := by
  have hne : t.trail (k + 1) ≠ [] := by simp [Term.trail_succ h.reached]
  obtain ⟨⟨d, hd, hpeak⟩, hup⟩ := Stats.isGreatest_of_zero hp hzero hne
  rw [Run.stats, h.events]
  refine ⟨?_, ?_⟩
  · obtain ⟨m, hm, v, hv, rfl⟩ := Term.mem_trail.1 hd
    exact ⟨m, Nat.lt_succ_iff.1 hm, v, hv, hpeak⟩
  · rintro j ⟨m, hm, v, hv, rfl⟩
    exact hup ⟨_, Term.mem_trail.2 ⟨m, Nat.lt_succ_of_le hm, v, hv, rfl⟩, rfl⟩

/-- The statistics of a run: the number of steps, and the greatest size and depth among its terms. -/
theorem stats :
    let r := Run.along t k u e
    r.stats.steps = k ∧
      IsGreatest {j | ∃ m ≤ k, ∃ v, t.after m = some v ∧ v.size = j} r.stats.peakSize ∧
      IsGreatest {j | ∃ m ≤ k, ∃ v, t.after m = some v ∧ v.depth = j} r.stats.peakDepth := by
  refine ⟨Run.steps_along t k u e, ?_, ?_⟩
  · exact h.isGreatest_peak (p := Stats.peakSize) (μ := Event.size) (fun _ _ => rfl) rfl
  · exact h.isGreatest_peak (p := Stats.peakDepth) (μ := Event.depth) (fun _ _ => rfl) rfl

end Course

/-- The run to the first term where it is stopped. -/
theorem course_of_stop (hn : n ≤ bound) (hv : t.after n = some v)
    (hstop : s.decision (Event.of n v) = .stop e)
    (hgoes : ∀ m < n, ∀ w, t.after m = some w → ∃ w', s.decision (Event.of m w) = .go w') :
    s.Course bound t n v e ∧ s.runFrom bound [] 0 t = .along t n v e := by
  obtain ⟨k, u, e', hcourse, hrun⟩ := s.exists_course bound t
  obtain ⟨rfl, rfl, rfl⟩ := hcourse.eq_of_stop hn hv hstop hgoes
  exact ⟨hcourse, hrun⟩

end Settings

end CallByValue
