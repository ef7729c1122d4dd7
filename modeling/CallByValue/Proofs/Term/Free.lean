import CallByValue.Term.Names
import Mathlib.Tactic.SplitIfs
import Mathlib.Tactic.Tauto

/-!
# The free variables of a term

`Term.freeVars` threads one tally of binders through a whole term, while `Term.isFree` looks for a
single name and stops at a binder of it.  The traversal leaves every count as it found it
(`Term.count_collectFree`), so both see the same names (`Term.mem_freeVars`).
-/

namespace CallByValue

namespace Term

@[simp] theorem isFree_var {x y : Name} : (var y).isFree x = true ↔ y = x := by
  simp [isFree]

@[simp] theorem isFree_abs {x y : Name} {b : Term} :
    (abs y b).isFree x = true ↔ y ≠ x ∧ b.isFree x = true := by
  by_cases h : y = x <;> simp [isFree, h]

@[simp] theorem isFree_app {x : Name} {f a : Term} :
    (app f a).isFree x = true ↔ f.isFree x = true ∨ a.isFree x = true := by
  simp [isFree]

theorem count_collectFree (t : Term) (s : Tally × List Name) (x : Name) :
    (t.collectFree s).1.count x = s.1.count x := by
  induction t generalizing s with
  | var y => rfl
  | abs y b ih =>
    simp only [collectFree, Tally.count_leave, ih, Tally.count_enter]
    split_ifs <;> omega
  | app f a ihf iha => rw [collectFree, iha, ihf]

/-- What a traversal adds to the names collected so far: those that occur free and that no binder
around the term binds. -/
theorem mem_collectFree (t : Term) (s : Tally × List Name) (x : Name) :
    x ∈ (t.collectFree s).2 ↔ x ∈ s.2 ∨ t.isFree x = true ∧ s.1.count x = 0 := by
  induction t generalizing s with
  | var y =>
    simp only [collectFree, isFree_var]
    split_ifs with h
    · rw [List.mem_insert_iff]
      constructor
      · rintro (rfl | hx)
        · exact .inr ⟨rfl, h⟩
        · exact .inl hx
      · rintro (hx | ⟨rfl, -⟩)
        · exact .inr hx
        · exact .inl rfl
    · constructor
      · exact .inl
      · rintro (hx | ⟨rfl, hy⟩)
        · exact hx
        · exact absurd hy h
  | abs y b ih =>
    simp only [collectFree, ih, Tally.count_enter, isFree_abs]
    by_cases h : x = y
    · simp [h]
    · simp [h, Ne.symm h]
  | app f a ihf iha =>
    simp only [collectFree, iha, ihf, count_collectFree, isFree_app]
    tauto

theorem mem_freeVars {t : Term} {x : Name} : x ∈ t.freeVars ↔ t.isFree x = true := by
  rw [freeVars, mem_collectFree]
  simp [Tally.count]

end Term

end CallByValue
