import CallByValue.Proofs.Term.Alpha
import CallByValue.Proofs.Term.Fresh

/-!
# Canonical forms

Naming the binders of a term `x0`, `x1`, … gives a canonical form: alpha-equal terms, and no others,
become equal (`Term.canonical_normalizes`).

* What is named depends on the nameless term alone: on its free variables
  (`Term.freeVars_eq_of_nameless_eq`) and on the place of each binder (`Term.canonicalIn_congr`).  So
  alpha-equal terms have equal canonical forms.
* A new name is neither free in the term nor in use for a binder around it, because the numbers only
  grow.  So nothing is captured, and the canonical form is alpha-equal to the term
  (`Term.nameless_canonical`).
* Numbers are skipped only where their name is free, so the binders are named exactly by the first
  canonical names that are not free (`Term.binders_canonical`).
-/

namespace CallByValue

namespace Nameless

/-- Adds the free names of a term to some names, each once. -/
def collectFree : Nameless → List Name → List Name
  | bound _, names => names
  | free x, names => names.insert x
  | abs b, names => b.collectFree names
  | app f a, names => a.collectFree (f.collectFree names)

/-- The name of a variable where the bound ones have the given names, the innermost first. -/
def nameOf (names : List Name) : Nameless → Name
  | bound i => names.getD i []
  | free x => x
  | _ => []

end Nameless

namespace Term

open Nameless

/-! ### Canonical forms of alpha-equal terms -/

/-- The traversal of a term meets the free names of the nameless term, in the same order. -/
theorem collectFree_namelessIn (t : Term) {scope : List Name} {s : Tally × List Name}
    (hs : ∀ x, s.1.count x = 0 ↔ x ∉ scope) :
    (t.collectFree s).2 = (t.namelessIn scope).collectFree s.2 := by
  induction t generalizing scope s with
  | var x =>
    by_cases hx : x ∈ scope
    · have hcount : s.1.count x ≠ 0 := fun h => (hs x).1 h hx
      obtain ⟨i, hi⟩ := Option.isSome_iff_exists.1 (List.isSome_idxOf?.2 hx)
      simp [collectFree, namelessIn, ofName, hi, hcount, Nameless.collectFree]
    · have hidx : scope.idxOf? x = none := List.idxOf?_eq_none_iff.2 hx
      simp [collectFree, namelessIn, ofName, hidx, (hs x).2 hx, Nameless.collectFree]
  | abs x b ih =>
    refine ih (s := (s.1.enter x, s.2)) fun y => ?_
    rw [Tally.count_enter, List.mem_cons]
    split_ifs with hy
    · simp [hy]
    · simp [hy, hs y]
  | app f a ihf iha =>
    rw [collectFree, namelessIn, Nameless.collectFree, ← ihf hs]
    exact iha fun x => by rw [count_collectFree, hs x]

/-- Alpha-equal terms have the same free variables, in the same order. -/
theorem freeVars_eq_of_nameless_eq {t u : Term} (h : t.nameless = u.nameless) :
    t.freeVars = u.freeVars := by
  have hstart : ∀ x : Name, Tally.count {} x = 0 ↔ x ∉ ([] : List Name) := by simp [Tally.count]
  rw [freeVars, freeVars, collectFree_namelessIn t hstart, collectFree_namelessIn u hstart]
  exact congrArg (Nameless.collectFree · []) h

/-- The new name of a variable can be told without its old one. -/
theorem getD_lookup_eq_nameOf (scope : List (Name × Name)) (x : Name) :
    (scope.lookup x).getD x = nameOf (scope.map Prod.snd) (ofName (scope.map Prod.fst) x) := by
  induction scope with
  | nil => rfl
  | cons p scope ih =>
    obtain ⟨a, b⟩ := p
    rw [List.map_cons, List.map_cons, ofName_cons, List.lookup_cons]
    by_cases h : x = a
    · subst h
      rw [enter_self, beq_self_eq_true]
      rfl
    · have hb : (x == a) = false := by simpa using h
      simp only [hb]
      rw [enter_of_ne _ h, ih]
      cases hv : ofName (scope.map Prod.fst) x <;> simp [nameOf, shift]

/-- The map gives the new names of the binders around, the innermost first. -/
def Gives (scope : List (Name × Name)) (m : NameMap Name) : Prop :=
  ∀ x, m.get? x = scope.lookup x

theorem Gives.set {scope : List (Name × Name)} {m : NameMap Name} (h : Gives scope m) (x y : Name) :
    Gives ((x, y) :: scope) (m.set x y) := by
  intro z
  rw [NameMap.get?_set, List.lookup_cons, h z]
  by_cases hz : z = x
  · simp [hz]
  · have hb : (z == x) = false := by simpa using hz
    simp [hz, hb]

/-- Renaming to the same new names depends on the nameless term alone. -/
theorem canonicalIn_congr (avoid : List Name) {t u : Term} {scope scope' : List (Name × Name)}
    {s s' : NameMap Name × Nat} (hs : Gives scope s.1) (hs' : Gives scope' s'.1)
    (h : t.namelessIn (scope.map Prod.fst) = u.namelessIn (scope'.map Prod.fst))
    (hnames : scope.map Prod.snd = scope'.map Prod.snd) (hnext : s.2 = s'.2) :
    (canonicalIn avoid t s).1 = (canonicalIn avoid u s').1 ∧
      (canonicalIn avoid t s).2.2 = (canonicalIn avoid u s').2.2 := by
  induction t generalizing u scope scope' s s' with
  | var x =>
    cases u with
    | var y =>
      have hvar : s.1.getD x x = s'.1.getD y y := by
        rw [NameMap.getD, NameMap.getD, hs, hs', getD_lookup_eq_nameOf, getD_lookup_eq_nameOf, hnames]
        exact congrArg _ h
      exact ⟨congrArg var hvar, hnext⟩
    | abs y c => exact absurd h (ofName_ne_abs _ x _)
    | app g c => exact absurd h (ofName_ne_app _ x _ _)
  | abs x b ih =>
    cases u with
    | var y => exact absurd h.symm (ofName_ne_abs _ y _)
    | abs y c =>
      rw [namelessIn, namelessIn, Nameless.abs.injEq] at h
      have hbody (z : Name) (i : Nat) :
          (canonicalIn avoid b (s.1.set x z, i)).1 = (canonicalIn avoid c (s'.1.set y z, i)).1 ∧
            (canonicalIn avoid b (s.1.set x z, i)).2.2 =
              (canonicalIn avoid c (s'.1.set y z, i)).2.2 := by
        refine ih (hs.set x z) (hs'.set y z) ?_ ?_ rfl
        · exact h
        · simp [hnames]
      simp only [canonicalIn, hnext]
      exact ⟨congrArg (abs _) (hbody _ _).1, (hbody _ _).2⟩
    | app g c => simp [namelessIn] at h
  | app f a ihf iha =>
    cases u with
    | var y => exact absurd h.symm (ofName_ne_app _ y _ _)
    | abs y c => simp [namelessIn] at h
    | app g c =>
      rw [namelessIn, namelessIn, Nameless.app.injEq] at h
      obtain ⟨hfun, hnumber⟩ := ihf hs hs' h.1 hnames hnext
      -- behind the functions the maps give the same names as before
      have hmap : Gives scope (canonicalIn avoid f s).2.1 :=
        fun x => (get?_canonicalIn avoid f s x).trans (hs x)
      have hmap' : Gives scope' (canonicalIn avoid g s').2.1 :=
        fun x => (get?_canonicalIn avoid g s' x).trans (hs' x)
      obtain ⟨harg, hnumber'⟩ := iha hmap hmap' h.2 hnames hnumber
      exact ⟨congrArg₂ app hfun harg, hnumber'⟩

theorem canonical_eq_of_nameless_eq {t u : Term} (h : t.nameless = u.nameless) :
    t.canonical = u.canonical := by
  have hempty : Gives [] ({} : NameMap Name) := fun _ => rfl
  rw [canonical, canonical, freeVars_eq_of_nameless_eq h]
  refine (canonicalIn_congr _ hempty hempty ?_ rfl rfl).1
  exact h

/-! ### The names in use -/

/-- The number of the next binder's name. -/
def nextNumber (avoid : List Name) (next : Nat) : Nat :=
  leastFrom (fun i => !avoid.contains (canonicalName i)) avoid.length next

theorem canonicalName_injective : Function.Injective canonicalName := by
  intro m n h
  exact Text.ofNat_injective (List.append_cancel_left h)

theorem canonicalName_nextNumber (avoid : List Name) (next : Nat) :
    canonicalName (nextNumber avoid next) ∉ avoid :=
  leastFrom_notMem canonicalName_injective avoid next

theorem le_nextNumber (avoid : List Name) (next : Nat) : next ≤ nextNumber avoid next :=
  le_leastFrom ..

theorem canonicalName_mem_of_lt {avoid : List Name} {next i : Nat} (h₁ : next ≤ i)
    (h₂ : i < nextNumber avoid next) : canonicalName i ∈ avoid := by
  simpa using not_ok_of_lt_leastFrom _ h₁ h₂

theorem canonicalIn_abs (avoid : List Name) (x : Name) (b : Term) (s : NameMap Name × Nat) :
    let i := nextNumber avoid s.2
    let r := canonicalIn avoid b (s.1.set x (canonicalName i), i + 1)
    canonicalIn avoid (abs x b) s =
      (abs (canonicalName i) r.1, r.2.1.restore x (s.1.get? x), r.2.2) := rfl

theorem canonicalIn_app (avoid : List Name) (f a : Term) (s : NameMap Name × Nat) :
    let r := canonicalIn avoid f s
    let q := canonicalIn avoid a r.2
    canonicalIn avoid (app f a) s = (app r.1 q.1, q.2) := rfl

/-- Numbers are not used again. -/
theorem le_canonicalIn (avoid : List Name) (t : Term) (s : NameMap Name × Nat) :
    s.2 ≤ (canonicalIn avoid t s).2.2 := by
  induction t generalizing s with
  | var x => exact Nat.le_refl s.2
  | abs x b ih =>
    rw [canonicalIn_abs]
    exact (le_nextNumber avoid s.2).trans (Nat.le_of_succ_le (ih (_, nextNumber avoid s.2 + 1)))
  | app f a ihf iha =>
    rw [canonicalIn_app]
    exact (ihf s).trans (iha _)

/-- A variable keeps clear of the names still to be given: it is called by a name to avoid, or by a
canonical one with a smaller number. -/
def Taken (avoid : List Name) (next : Nat) (x : Name) : Prop :=
  x ∈ avoid ∨ ∃ i < next, x = canonicalName i

theorem Taken.mono {avoid : List Name} {m n : Nat} {x : Name} (h : Taken avoid m x) (hmn : m ≤ n) :
    Taken avoid n x :=
  h.imp_right fun ⟨i, hi, hx⟩ => ⟨i, Nat.lt_of_lt_of_le hi hmn, hx⟩

theorem Taken.ne_nextNumber {avoid : List Name} {next : Nat} {x : Name} (h : Taken avoid next x) :
    x ≠ canonicalName (nextNumber avoid next) := by
  rintro rfl
  rcases h with hmem | ⟨i, hi, heq⟩
  · exact canonicalName_nextNumber avoid next hmem
  · have hle := le_nextNumber avoid next
    rw [canonicalName_injective heq] at hle
    omega

/-- **Canonical names capture nothing.**  If the free variables are called by names that are taken, and
stand for the same as before, so does the renamed term. -/
theorem translate_canonicalIn {avoid : List Name} {t : Term} {s : NameMap Name × Nat}
    {ρ σ : Name → Nameless}
    (htaken : ∀ x, t.isFree x = true → Taken avoid s.2 (s.1.getD x x))
    (hσ : ∀ x, t.isFree x = true → σ (s.1.getD x x) = ρ x) :
    (canonicalIn avoid t s).1.translate σ = t.translate ρ := by
  induction t generalizing s ρ σ with
  | var x => exact hσ x (by simp)
  | abs x b ih =>
    rw [canonicalIn_abs]
    have hle := le_nextNumber avoid s.2
    have hne : ∀ y, y ≠ x → b.isFree y = true → (abs x b).isFree y = true :=
      fun y hy hb => isFree_abs.2 ⟨Ne.symm hy, hb⟩
    refine congrArg Nameless.abs (ih (fun y hb => ?_) fun y hb => ?_)
    · by_cases hy : y = x
      · rw [hy, NameMap.getD_set, if_pos rfl]
        exact .inr ⟨_, Nat.lt_succ_self _, rfl⟩
      · rw [NameMap.getD_set, if_neg hy]
        exact (htaken y (hne y hy hb)).mono (Nat.le_succ_of_le hle)
    · by_cases hy : y = x
      · rw [hy, NameMap.getD_set, if_pos rfl, enter_self, enter_self]
      · have hfree := hne y hy hb
        rw [NameMap.getD_set, if_neg hy, enter_of_ne _ (htaken y hfree).ne_nextNumber,
          enter_of_ne _ hy, hσ y hfree]
  | app f a ihf iha =>
    rw [canonicalIn_app, translate, translate]
    have hle := le_canonicalIn avoid f s
    have hsame (x : Name) : (canonicalIn avoid f s).2.1.getD x x = s.1.getD x x := by
      rw [NameMap.getD, get?_canonicalIn, NameMap.getD]
    rw [ihf (fun x hx => htaken x (isFree_app.2 (.inl hx))) fun x hx => hσ x (isFree_app.2 (.inl hx)),
      iha (fun x hx => hsame x ▸ (htaken x (isFree_app.2 (.inr hx))).mono hle) fun x hx =>
        hsame x ▸ hσ x (isFree_app.2 (.inr hx))]

theorem nameless_canonical (t : Term) : t.canonical.nameless = t.nameless := by
  rw [nameless_eq_translate, nameless_eq_translate, canonical]
  exact translate_canonicalIn (fun x hx => .inl (mem_freeVars.2 hx)) fun x _ => rfl

/-! ### The names of the binders -/

/-- The parameters of all abstractions in a term, from the outside in and from left to right. -/
def binders : Term → List Name
  | var _ => []
  | abs x b => x :: b.binders
  | app f a => f.binders ++ a.binders

/-- The canonical names with numbers from `m` on and below `n` that are not to be avoided. -/
def namesBetween (avoid : List Name) (m n : Nat) : List Name :=
  ((List.range' m (n - m)).map canonicalName).filter fun x => !avoid.contains x

section NamesBetween

variable {avoid : List Name} {k m n : Nat}

theorem mem_namesBetween {x : Name} :
    x ∈ namesBetween avoid m n ↔ (∃ i, m ≤ i ∧ i < n ∧ x = canonicalName i) ∧ x ∉ avoid := by
  simp only [namesBetween, List.mem_filter, List.mem_map, List.mem_range'_1, Bool.not_eq_true',
    List.contains_eq_mem, decide_eq_false_iff_not]
  refine and_congr_left fun _ => exists_congr fun i => ?_
  constructor
  · rintro ⟨hi, rfl⟩
    exact ⟨hi.1, by omega, rfl⟩
  · rintro ⟨hm, hn, rfl⟩
    exact ⟨by omega, rfl⟩

theorem nodup_namesBetween (avoid : List Name) (m n : Nat) : (namesBetween avoid m n).Nodup :=
  ((List.nodup_range' (s := m)).map canonicalName_injective).filter _

theorem namesBetween_append (hkm : k ≤ m) (hmn : m ≤ n) :
    namesBetween avoid k m ++ namesBetween avoid m n = namesBetween avoid k n := by
  have hrange : List.range' k (n - k) = List.range' k (m - k) ++ List.range' m (n - m) := by
    rw [show n - k = (m - k) + (n - m) by omega, ← List.range'_append_1, Nat.add_sub_cancel' hkm]
  rw [namesBetween, namesBetween, namesBetween, hrange, List.map_append, List.filter_append]

theorem namesBetween_self : namesBetween avoid m m = [] := by
  simp [namesBetween]

/-- The first name that is not to be avoided. -/
theorem namesBetween_nextNumber (avoid : List Name) (m : Nat) :
    namesBetween avoid m (nextNumber avoid m + 1) = [canonicalName (nextNumber avoid m)] := by
  have hskip : namesBetween avoid m (nextNumber avoid m) = [] := by
    rw [List.eq_nil_iff_forall_not_mem]
    intro x hx
    obtain ⟨⟨i, hm, hi, rfl⟩, hx⟩ := mem_namesBetween.1 hx
    exact hx (canonicalName_mem_of_lt hm hi)
  have hlast : namesBetween avoid (nextNumber avoid m) (nextNumber avoid m + 1) =
      [canonicalName (nextNumber avoid m)] := by
    simp [namesBetween, List.range'_succ, canonicalName_nextNumber]
  rw [← namesBetween_append (le_nextNumber avoid m) (Nat.le_succ _), hskip, hlast,
    List.nil_append]

end NamesBetween

/-- The binders take the canonical names in order, without those to avoid. -/
theorem binders_canonicalIn (avoid : List Name) (t : Term) (s : NameMap Name × Nat) :
    (canonicalIn avoid t s).1.binders = namesBetween avoid s.2 (canonicalIn avoid t s).2.2 := by
  induction t generalizing s with
  | var x => exact namesBetween_self.symm
  | abs x b ih =>
    have hle := le_canonicalIn avoid b
      (s.1.set x (canonicalName (nextNumber avoid s.2)), nextNumber avoid s.2 + 1)
    rw [canonicalIn_abs, binders, ih,
      ← namesBetween_append (Nat.le_succ_of_le (le_nextNumber avoid s.2)) hle,
      namesBetween_nextNumber, List.singleton_append]
  | app f a ihf iha =>
    rw [canonicalIn_app, binders, ihf, iha, namesBetween_append (le_canonicalIn ..)
      (le_canonicalIn ..)]

theorem binders_canonical (t : Term) : ∃ n, t.canonical.binders = namesBetween t.freeVars 0 n :=
  ⟨_, binders_canonicalIn ..⟩

/-- **Canonical forms.**  Two terms are alpha-equal exactly if their canonical forms are equal.  The
canonical form of a term is alpha-equal to it and has the same free variables; its binders are the first
canonical names that do not occur free, each used once; and it is its own canonical form. -/
theorem canonical_normalizes :
    (∀ t u : Term, t.alphaEq u = true ↔ t.canonical = u.canonical) ∧
    ∀ t : Term, t.canonical.alphaEq t = true ∧ t.canonical.freeVars = t.freeVars ∧
      t.canonical.binders.Nodup ∧
      (∀ x ∈ t.canonical.binders, (∃ i, x = canonicalName i) ∧ x ∉ t.freeVars) ∧
      (∃ n, t.canonical.binders = namesBetween t.freeVars 0 n) ∧
      t.canonical.canonical = t.canonical := by
  refine ⟨fun t u => ?_, fun t => ?_⟩
  · rw [alphaEq_iff_nameless_eq]
    refine ⟨canonical_eq_of_nameless_eq, fun h => ?_⟩
    rw [← nameless_canonical t, h, nameless_canonical]
  · have hsame := nameless_canonical t
    obtain ⟨n, hn⟩ := binders_canonical t
    refine ⟨alphaEq_iff_nameless_eq.2 hsame, freeVars_eq_of_nameless_eq hsame, ?_, ?_, ⟨n, hn⟩,
      canonical_eq_of_nameless_eq hsame⟩
    · rw [hn]
      exact nodup_namesBetween ..
    · intro x hx
      rw [hn] at hx
      obtain ⟨⟨i, -, -, rfl⟩, hfree⟩ := mem_namesBetween.1 hx
      exact ⟨⟨i, rfl⟩, hfree⟩

/-- A term that binds `x1` twice and `x0` once, beside a free `x1`. -/
theorem canonical_normalizes_shadowed :
    let x0 := canonicalName 0
    let x1 := canonicalName 1
    let x2 := canonicalName 2
    let x3 := canonicalName 3
    let t := app (var x1) (abs x1 (app (abs x1 (var x1)) (abs x0 (app (var x0) (var x1)))))
    let u := app (var x1) (abs x0 (app (abs x2 (var x2)) (abs x3 (app (var x3) (var x0)))))
    t.alphaEq u = true ∧ t.canonical = u.canonical ∧ t.canonical = u ∧
      x2 ∈ t.canonical.binders ∧ x2 ∉ t.freeVars := by
  intro x0 x1 x2 x3 t u
  obtain ⟨hiff, hform⟩ := canonical_normalizes
  have halpha : t.alphaEq u = true := by decide +kernel
  have hmem : x2 ∈ t.canonical.binders := by decide +kernel
  exact ⟨halpha, (hiff t u).1 halpha, by decide +kernel, hmem, ((hform t).2.2.2.1 x2 hmem).2⟩

end Term

end CallByValue
