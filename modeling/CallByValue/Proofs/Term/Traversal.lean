import CallByValue.Proofs.Term.Free
import Mathlib.Data.List.Forall2

/-!
# The traversal for free variables

`Term.collectFree` hands one tally from each subterm to the next.  A subterm that left a binder behind,
or took one away that it had not entered, would make its later siblings see the wrong names as bound.

Each subterm stands under some binders (`Term.subterms`), and the traversal comes to it with what it has
counted and found so far (`Term.visits`).  The two lists go together one by one, whatever the traversal
starts with (`Term.balanced_visits`): before a subterm the tally counts the binders around it, behind it
the tally is what it was before, and what the subterm adds are the names free in it that nothing around
it binds.

**Main theorem** (`Term.freeVars_agree_with_isFree`): the free variables that the traversal collects are
the names that occur free, and the tally is restored at every subterm.
-/

namespace CallByValue

/-- A subterm at its place. -/
structure Subterm where
  /-- The binders around the subterm, the innermost first. -/
  around : List Name
  /-- The subterm. -/
  term : Term
  deriving DecidableEq, Repr

/-- The moment at which a traversal comes to a subterm. -/
structure Visit where
  /-- The subterm. -/
  term : Term
  /-- The tally and the free names with which the traversal comes to it. -/
  before : Tally × List Name
  deriving Repr

/-- The tally and the free names with which the traversal leaves the subterm. -/
def Visit.after (v : Visit) : Tally × List Name := v.term.collectFree v.before

/-- A visit in a traversal that started with the tally `bound` belongs to a subterm and accounts for its
binders. -/
structure Visit.Balanced (bound : Tally) (u : Subterm) (v : Visit) : Prop where
  /-- The visit is one of the subterm. -/
  term : v.term = u.term
  /-- The tally counts the binders around the subterm, besides what it counted at the start. -/
  count_before : ∀ x, v.before.1.count x = bound.count x + u.around.count x
  /-- Behind the subterm the tally counts what it counted before it. -/
  count_after : ∀ x, v.after.1.count x = v.before.1.count x
  /-- Added are the names free in the subterm that were not bound at the start nor are bound around it. -/
  mem_after : ∀ x, x ∈ v.after.2 ↔
    x ∈ v.before.2 ∨ u.term.isFree x = true ∧ bound.count x = 0 ∧ x ∉ u.around

namespace Term

/-- The subterms of a term that stands under the given binders, each before its own parts. -/
def subterms : Term → (around : List Name) → List Subterm
  | var x, around => [⟨around, var x⟩]
  | abs x b, around => ⟨around, abs x b⟩ :: b.subterms (x :: around)
  | app f a, around => ⟨around, app f a⟩ :: (f.subterms around ++ a.subterms around)

/-- The visits of the traversal in order. -/
def visits : Term → Tally × List Name → List Visit
  | var x, s => [⟨var x, s⟩]
  | abs x b, s => ⟨abs x b, s⟩ :: b.visits (s.1.enter x, s.2)
  | app f a, s => ⟨app f a, s⟩ :: (f.visits s ++ a.visits (f.collectFree s))

variable {bound : Tally} {around : List Name} {s : Tally × List Name}

theorem balanced_visit (t : Term) (hs : ∀ x, s.1.count x = bound.count x + around.count x) :
    Visit.Balanced bound ⟨around, t⟩ ⟨t, s⟩ where
  term := rfl
  count_before := hs
  count_after := count_collectFree t s
  mem_after := by
    intro x
    have hnone : s.1.count x = 0 ↔ bound.count x = 0 ∧ x ∉ around := by
      rw [hs, Nat.add_eq_zero_iff, List.count_eq_zero]
    rw [Visit.after, mem_collectFree, hnone]

/-- The visits are those of the subterms, in the same order. -/
theorem balanced_visits (t : Term) (hs : ∀ x, s.1.count x = bound.count x + around.count x) :
    List.Forall₂ (Visit.Balanced bound) (t.subterms around) (t.visits s) := by
  induction t generalizing around s with
  | var x => exact .cons (balanced_visit _ hs) .nil
  | abs x b ih =>
    have henter : ∀ y, (s.1.enter x).count y = bound.count y + (x :: around).count y := by
      intro y
      rw [Tally.count_enter_singleton, hs]
      simp only [List.count_cons, List.count_nil, Nat.zero_add, Nat.add_assoc]
    exact .cons (balanced_visit _ hs) (ih henter)
  | app f a ihf iha =>
    -- the argument finds the tally as the function has found it
    have hrestored : ∀ y, (f.collectFree s).1.count y = bound.count y + around.count y :=
      fun y => (count_collectFree f s y).trans (hs y)
    exact .cons (balanced_visit _ hs) (List.rel_append (ihf hs) (iha hrestored))

/-- **Both computations of free variables agree.**  A name is collected exactly if it occurs free.  The
tally that the collecting traversal hands on is back at its old counts behind every subterm, whatever the
traversal starts with: the visits are those of the subterms in order, and each of them is balanced. -/
theorem freeVars_agree_with_isFree (t : Term) :
    (∀ x, x ∈ t.freeVars ↔ t.isFree x = true) ∧
      ∀ s : Tally × List Name,
        List.Forall₂ (Visit.Balanced s.1) (t.subterms []) (t.visits s) := by
  refine ⟨fun x => mem_freeVars, fun s => t.balanced_visits fun x => ?_⟩
  rw [List.count_nil, Nat.add_zero]

end Term

end CallByValue
