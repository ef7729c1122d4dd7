import CallByValue.Display.Printer
import CallByValue.Proofs.Term.Free

/-!
# Colours and scopes

The printer threads one tally of binders through a whole term.  `Printer.layout` says the same with the
list of binders around a term, which goes down into the term and never comes back.

* The tally counts the open parameters in and out again: behind a term it has lost the parameters of the
  lambda whose body the term is, and nothing else (`Printer.count_write`).  So a term is written as if
  nothing had been written before it (`Printer.write_fst`).
* A variable is written as bound or as free by the binders around it, wherever it stands
  (`Printer.filter_layout`), and a name is free somewhere exactly if it is a free variable
  (`Term.exists_free_variable`).
* The colour palette doubles percent signs and formats them away again, so a piece is written as it is
  between two escape sequences (`Piece.render_colours`).

**Main theorem** (`Printer.print_in_colour`): without its colours a coloured term is the plain one, and
the colours tell bound from free variables.
-/

namespace CallByValue

/-! ### Pieces in colour -/

namespace Piece

/-- The piece between the escape sequences of its role. -/
def coloured : Piece → Text
  | space => utf8 " "
  | text role s => (Palette.colourOf role).before ++ s ++ (Palette.colourOf role).after

/-- The piece is a variable. -/
def isVariable : Piece → Bool
  | text .boundVar _ => true
  | text .freeVar _ => true
  | _ => false

/-- The piece of a variable under the given binders. -/
def ofVariable (x : Name) (around : List Name) : Piece :=
  .text (if x ∈ around then .boundVar else .freeVar) x

theorem render_colours (p : Piece) : p.render .colours = p.coloured := by
  cases p with
  | space => rfl
  | text role s =>
    show (Palette.colourOf role).apply s.doubled.formatted = _
    rw [Text.formatted_doubled]
    rfl

theorem render_plain (p : Piece) : p.render .plain = p.bare := by
  cases p with
  | space => rfl
  | text role s => exact List.append_nil s

theorem isVariable_ofVariable (x : Name) (around : List Name) : (ofVariable x around).isVariable := by
  unfold ofVariable
  split <;> rfl

theorem ofVariable_eq_free_iff {x y : Name} {around : List Name} :
    ofVariable x around = .text .freeVar y ↔ x = y ∧ y ∉ around := by
  unfold ofVariable
  split_ifs with h
  · simp only [text.injEq, reduceCtorEq, false_and, false_iff, not_and, not_not]
    rintro rfl
    exact h
  · simp only [text.injEq, true_and]
    constructor
    · rintro rfl
      exact ⟨rfl, h⟩
    · exact And.left

end Piece

/-! ### The tally along a term -/

namespace Tally

/-- Each name that is left is counted out as often as it is left. -/
theorem count_foldl_leave (xs : List Name) (bound : Tally) (y : Name) :
    (xs.foldl leave bound).count y = bound.count y - xs.count y := by
  induction xs generalizing bound with
  | nil => rfl
  | cons x xs ih =>
    rw [List.foldl_cons, ih, count_leave_singleton, Nat.sub_sub, ← List.count_append,
      List.singleton_append]

end Tally

namespace Printer

variable {pr : Printer}

/-- The pieces of a term at a place, under the given binders. -/
def layout (pr : Printer) : Place → (bound : List Name) → Term → List Piece
  | place, bound, .var x =>
    bodyStart place ++ [.text (if x ∈ bound then .boundVar else .freeVar) x]
  | .body, bound, .abs x b => .space :: .text .binder x :: layout pr .body (x :: bound) b
  | place, bound, .abs x b =>
    parenthesised (place != .top)
      (.text .punctuation pr.lambda :: .text .binder x :: layout pr .body (x :: bound) b)
  | place, bound, .app f a =>
    bodyStart place ++ parenthesised (place == .arg)
      (layout pr .fn bound f ++ .space :: layout pr .arg bound a)

/-- **The tally is kept.**  Behind a term it has lost the parameters of the open lambda. -/
theorem count_write (pr : Printer) (place : Place) (params : List Name) (t : Term) (bound : Tally)
    (y : Name) :
    (pr.write place params t bound).2.count y = bound.count y - params.count y := by
  induction t generalizing place params bound with
  | var x =>
    rw [write]
    exact Tally.count_foldl_leave params bound y
  | abs x b ih =>
    by_cases hplace : place = .body
    · -- a further parameter has been counted and is left with the others
      rw [hplace, write, ih, Tally.count_enter_singleton, List.count_append, Nat.add_sub_add_right]
    · rw [write]
      · show (params.foldl Tally.leave _).count y = _
        rw [Tally.count_foldl_leave, ih, Tally.count_enter_singleton, Nat.add_sub_cancel]
      · exact hplace
  | app f a ihf iha =>
    rw [write]
    show (params.foldl Tally.leave _).count y = _
    rw [Tally.count_foldl_leave, iha, ihf, List.count_nil, Nat.sub_zero, Nat.sub_zero]

/-- A term is written as under the binders that the tally counts. -/
theorem write_fst (place : Place) (params : List Name) (t : Term) {bound : Tally} {scope : List Name}
    (h : ∀ x, 0 < bound.count x ↔ x ∈ scope) :
    (pr.write place params t bound).1 = pr.layout place scope t := by
  induction t generalizing place params bound scope with
  | var x =>
    rw [write, layout]
    simp only [h]
  | abs x b ih =>
    have henter : ∀ y, 0 < (bound.enter x).count y ↔ y ∈ x :: scope := by
      intro y
      rw [Tally.count_enter, List.mem_cons, ← h]
      split_ifs with hyx
      · simp [hyx]
      · simp [hyx]
    by_cases hplace : place = .body
    · rw [hplace, write, layout]
      show Piece.space :: .text .binder x :: _ = _
      rw [ih _ _ henter]
    · rw [write, layout]
      · show parenthesised _ (_ :: .text .binder x :: _) = _
        rw [ih _ _ henter]
      · exact hplace
      · exact hplace
  | app f a ihf iha =>
    -- the argument is written under the tally that the function has left as it was
    have hafter : ∀ y, 0 < (pr.write .fn [] f bound).2.count y ↔ y ∈ scope := by
      intro y
      rw [count_write, List.count_nil, Nat.sub_zero]
      exact h y
    rw [write, layout]
    show bodyStart place ++ parenthesised _ (_ ++ .space :: _) = _
    rw [ihf _ _ h, iha _ _ hafter]

theorem pieces_eq_layout (pr : Printer) (t : Term) : pr.pieces t = pr.layout .top [] t :=
  write_fst .top [] t fun x => by simp [Tally.count]

end Printer

/-! ### Variables in their scopes -/

namespace Term

/-- The variables of a term from left to right, each with the names that the abstractions around it
bind. -/
def scopedVars : Term → List (Name × List Name)
  | var x => [(x, [])]
  | abs x b => b.scopedVars.map fun v => (v.1, v.2 ++ [x])
  | app f a => f.scopedVars ++ a.scopedVars

/-- A name occurs free exactly where no abstraction around it binds it. -/
theorem exists_free_variable {t : Term} {x : Name} :
    (∃ v ∈ t.scopedVars, v.1 = x ∧ x ∉ v.2) ↔ t.isFree x = true := by
  induction t with
  | var y => simp [scopedVars]
  | abs y b ih =>
    rw [isFree_abs, ← ih]
    simp only [scopedVars, List.mem_map, exists_exists_and_eq_and, List.mem_append, List.mem_singleton,
      not_or]
    constructor
    · rintro ⟨v, hv, hvx, hx, hxy⟩
      exact ⟨Ne.symm hxy, v, hv, hvx, hx⟩
    · rintro ⟨hyx, v, hv, hvx, hx⟩
      exact ⟨v, hv, hvx, hx, Ne.symm hyx⟩
  | app f a ihf iha =>
    rw [isFree_app, ← ihf, ← iha]
    simp only [scopedVars, List.mem_append, or_and_right, exists_or]

end Term

namespace Printer

variable {pr : Printer}

theorem filter_bodyStart (place : Place) : (bodyStart place).filter Piece.isVariable = [] := by
  cases place <;> rfl

theorem filter_parenthesised (p : Bool) (ps : List Piece) :
    (parenthesised p ps).filter Piece.isVariable = ps.filter Piece.isVariable := by
  cases p with
  | false => rfl
  | true => simp [parenthesised, mark, Piece.isVariable]

/-- **The variables among the pieces** are those of the term, each under the binders around it. -/
theorem filter_layout (place : Place) (scope : List Name) (t : Term) :
    (pr.layout place scope t).filter Piece.isVariable =
      t.scopedVars.map fun v => Piece.ofVariable v.1 (v.2 ++ scope) := by
  induction t generalizing place scope with
  | var x =>
    rw [layout, List.filter_append, filter_bodyStart]
    exact List.filter_cons_of_pos (Piece.isVariable_ofVariable x scope)
  | abs x b ih =>
    -- the parameter is no variable itself; it is the outermost binder around those of the body
    have hbody : ((pr.layout .body (x :: scope) b).filter Piece.isVariable) =
        (Term.abs x b).scopedVars.map fun v => Piece.ofVariable v.1 (v.2 ++ scope) := by
      rw [ih, Term.scopedVars, List.map_map]
      refine List.map_congr_left fun v _ => ?_
      show Piece.ofVariable v.1 (v.2 ++ x :: scope) = Piece.ofVariable v.1 (v.2 ++ [x] ++ scope)
      rw [List.append_assoc, List.singleton_append]
    by_cases hplace : place = .body
    · rw [hplace, layout]
      exact hbody
    · rw [layout, filter_parenthesised]
      · exact hbody
      · exact hplace
  | app f a ihf iha =>
    rw [layout, List.filter_append, filter_bodyStart, List.nil_append, filter_parenthesised,
      List.filter_append, ihf, Term.scopedVars, List.map_append, ← iha .arg]
    rfl

theorem freeVar_mem_layout_iff {place : Place} {x : Name} {t : Term} :
    Piece.text .freeVar x ∈ pr.layout place [] t ↔ t.isFree x = true := by
  rw [← Term.exists_free_variable]
  have hfilter : Piece.text .freeVar x ∈ pr.layout place [] t ↔
      Piece.text .freeVar x ∈ (pr.layout place [] t).filter Piece.isVariable := by
    simp [List.mem_filter, Piece.isVariable]
  rw [hfilter, filter_layout, List.mem_map]
  simp only [List.append_nil, Piece.ofVariable_eq_free_iff]

/-- **Colours change nothing but colour, and they tell bound from free variables.**  A coloured term is
made of pieces, each a space or a text between the two escape sequences of a role; the same pieces without
the escape sequences are the plain term.  Each variable has the role of a bound one exactly if an
abstraction around it binds its name, and the names in the role of free ones are the free variables. -/
theorem print_in_colour (pr : Printer) (t : Term) :
    let ps := pr.layout .top [] t
    pr.print .colours t = ps.flatMap Piece.coloured ∧ pr.print .plain t = ps.flatMap Piece.bare ∧
      ps.filter Piece.isVariable = t.scopedVars.map (fun v => Piece.ofVariable v.1 v.2) ∧
      ∀ x, x ∈ t.freeVars ↔ Piece.text .freeVar x ∈ ps := by
  intro ps
  have hps : pr.pieces t = ps := pr.pieces_eq_layout t
  refine ⟨?_, ?_, ?_, ?_⟩
  · rw [print, hps]
    exact congrArg (List.flatMap · ps) (funext Piece.render_colours)
  · rw [print, hps]
    exact congrArg (List.flatMap · ps) (funext Piece.render_plain)
  · rw [filter_layout]
    simp only [List.append_nil]
  · intro x
    rw [Term.mem_freeVars, freeVar_mem_layout_iff]

end Printer

end CallByValue
