import CallByValue.Term.Names

/-!
# Equality up to bound names

Two terms are alpha-equal if they differ only in the names of bound variables.  `Term.alphaEq`
compares them side by side; `Term.canonical` names the binders of a term `x0`, `x1`, … in order, so
that alpha-equal terms become equal.

Both carry a map through the whole term.  A binder changes the entry of its name, and behind its body the
entry is put back (`Term.get?_canonicalIn`).
-/

namespace CallByValue

namespace Term

/-- The levels of the innermost binders of the names in two terms; level zero stands for none. -/
abbrev Levels := NameMap Nat × NameMap Nat

/-- Whether two occurrences agree: they belong to binders of the same level, or to none and have the same
name. -/
def sameVar (levels : Levels) (x y : Name) : Bool :=
  let i := levels.1.getD x 0
  let j := levels.2.getD y 0
  if i != 0 || j != 0 then i == j else x == y

/-- Alpha-equality where the next binders have the given level.  The levels are put back behind a
binder. -/
def alphaEqIn : Term → Term → (level : Nat) → Levels → Bool × Levels
  | var x, var y, _, s => (sameVar s x y, s)
  | abs x b, abs y c, level, s =>
    let r := alphaEqIn b c (level + 1) (s.1.set x level, s.2.set y level)
    (r.1, r.2.1.set x (s.1.getD x 0), r.2.2.set y (s.2.getD y 0))
  | app f a, app g c, level, s =>
    let r := alphaEqIn f g level s
    if r.1 then alphaEqIn a c level r.2 else r
  | _, _, _, s => (false, s)

/-- Whether two terms are equal up to the names of bound variables. -/
def alphaEq (t u : Term) : Bool := (alphaEqIn t u 1 ({}, {})).1

/-- The `i`-th canonical name. -/
def canonicalName (i : Nat) : Name := utf8 "x" ++ Text.ofNat i

/-- Renames binders to canonical names numbered from the next unused number on, skipping the names in
`avoid`.  The map gives the new names of the enclosing binders and is put back behind a binder. -/
def canonicalIn (avoid : List Name) : Term → NameMap Name × Nat → Term × NameMap Name × Nat
  | var x, s => (var (s.1.getD x x), s)
  | abs x b, s =>
    let i := leastFrom (fun i => !avoid.contains (canonicalName i)) avoid.length s.2
    let r := canonicalIn avoid b (s.1.set x (canonicalName i), i + 1)
    (abs (canonicalName i) r.1, r.2.1.restore x (s.1.get? x), r.2.2)
  | app f a, s =>
    let r := canonicalIn avoid f s
    let q := canonicalIn avoid a r.2
    (app r.1 q.1, q.2)

/-- A traversal leaves the map as it was. -/
theorem get?_canonicalIn (avoid : List Name) (t : Term) (s : NameMap Name × Nat) (y : Name) :
    (canonicalIn avoid t s).2.1.get? y = s.1.get? y := by
  induction t generalizing s with
  | var x => rfl
  | abs x b ih =>
    simp only [canonicalIn, NameMap.get?_restore, ih, NameMap.get?_set]
    split
    · next h => rw [h]
    · rfl
  | app f a ihf iha => simp only [canonicalIn, iha, ihf]

/-- The term with its binders named `x0`, `x1`, … from the outside in and from left to right, without
the names that occur free. -/
def canonical (t : Term) : Term := (canonicalIn t.freeVars t ({}, 0)).1

end Term

end CallByValue
