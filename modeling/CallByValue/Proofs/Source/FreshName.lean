import CallByValue.Proofs.Source.Tokens
import Mathlib.Data.Finset.Card
import Mathlib.Data.List.DropRight
import Mathlib.Logic.Function.Iterate
import Mathlib.Order.Bounds.Basic

/-!
# The choice of a fresh name

A fresh name is a stem with a number.  The stem is what is left of the base without the digits at its
end (`Name.Trimmed`), and the number is the least one whose name is in none of the sets to avoid.

The search for the number tries one name after the other and has no bound (`Name.searchStep`).  It ends
all the same: distinct numbers give distinct names, so the names to avoid cannot take up one number more
than there are of them (`Name.exists_isLeast_number`), and the round that tries the least number calls
for no further round (`Name.iterate_searchStep`).

The stem of a lexable name is a word, and a word with a number is no keyword, so the fresh name of an
identifier is an identifier.

**Main theorem** (`Name.fresh_is_least_admissible`): a fresh name is the stem with the least number that
can be taken, which the search finds, and an identifier if the base is one.
-/

namespace CallByValue

namespace Name

/-! ### The stem -/

/-- A base falls into the part that is kept and the digits that it ends in. -/
structure Trimmed (base kept digits : Name) : Prop where
  /-- Nothing is lost. -/
  append : kept ++ digits = base
  /-- Only digits are cut off. -/
  digit : ∀ b ∈ digits, isDigit b = true
  /-- All digits at the end are cut off. -/
  last : ∀ b ∈ kept.getLast?, isDigit b = false

theorem trimmed_rdropWhile (base : Name) :
    Trimmed base (base.rdropWhile isDigit) (base.rtakeWhile isDigit) where
  append := List.rdropWhile_append_rtakeWhile
  digit := fun b hb => List.mem_rtakeWhile_imp hb
  last := by
    intro b hb
    obtain ⟨hne, rfl⟩ := List.mem_getLast?_eq_getLast hb
    exact Bool.eq_false_iff.2 (List.rdropWhile_last_not isDigit base hne)

/-- The stem for what is kept of a base, which may be nothing or start unlike a word. -/
theorem stem_eq (base : Name) :
    stem base = if (base.rdropWhile isDigit).head?.any isWordStart then base.rdropWhile isDigit
      else utf8 "v" := by
  have hkept : (base.reverse.dropWhile isDigit).reverse = base.rdropWhile isDigit := rfl
  rw [stem, hkept]
  cases base.rdropWhile isDigit <;> rfl

/-! ### The search -/

/-- The numbers from `start` on whose names are in none of the sets. -/
def admissible (name : Nat → Name) (avoid : List (List Name)) (start : Nat) : Set Nat :=
  {i | start ≤ i ∧ ∀ names ∈ avoid, name i ∉ names}

/-- One round of the search for a name: a name that is in one of the sets is passed over, and `call`
goes on at the next number. -/
def searchStep (name : Nat → Name) (avoid : List (List Name)) (call : Nat → Name) (i : Nat) : Name :=
  if avoid.any (·.contains (name i)) then call (i + 1) else name i

/-- Enough rounds to come to the first name that is in none of the sets give that name. -/
theorem iterate_searchStep {name : Nat → Name} {avoid : List (List Name)} {start j n : Nat}
    (hj : IsLeast (admissible name avoid start) j) (hn : j < start + n) (call : Nat → Name) :
    (searchStep name avoid)^[n] call start = name j := by
  induction n generalizing start with
  | zero =>
    have hstart : start ≤ j := hj.1.1
    omega
  | succ n ih =>
    rw [Function.iterate_succ_apply', searchStep]
    split_ifs with htaken
    · -- the name is taken, so the least number lies further on
      obtain ⟨names, hnames, hmem⟩ : ∃ names ∈ avoid, name start ∈ names := by simpa using htaken
      have hne : start ≠ j := by
        rintro rfl
        exact hj.1.2 names hnames hmem
      have hlt : start + 1 ≤ j := Nat.lt_of_le_of_ne hj.1.1 hne
      refine ih ⟨⟨hlt, hj.1.2⟩, fun i hi => hj.2 ⟨Nat.le_of_succ_le hi.1, hi.2⟩⟩ ?_
      omega
    · have hfree : ∀ names ∈ avoid, name start ∉ names := by simpa using htaken
      have hle : j ≤ start := hj.2 ⟨Nat.le_refl start, hfree⟩
      rw [Nat.le_antisymm hj.1.1 hle]

/-- The number of a fresh name is the least one whose name is in none of the sets, and at most as many
come before it as there are different names in the sets. -/
theorem exists_isLeast_number (base : Name) (avoid : List (List Name)) :
    ∃ i, fresh base avoid = numbered base i ∧ IsLeast (admissible (numbered base) avoid 1) i ∧
      i ≤ 1 + avoid.flatten.toFinset.card := by
  -- as many numbers as there are different names, and one more, cannot all be taken
  obtain ⟨j, hj₁, hj₂, hj⟩ := exists_notMem (numbered_injective base) avoid.flatten.dedup 1
  have hadmissible : j ∈ admissible (numbered base) avoid 1 := by
    refine ⟨hj₁, fun names hnames hmem => hj ?_⟩
    exact List.mem_dedup.2 (List.mem_flatten.2 ⟨names, hnames, hmem⟩)
  have hle : j ≤ 1 + avoid.flatten.length :=
    Nat.le_trans hj₂ (Nat.add_le_add_left (List.dedup_sublist _).length_le 1)
  have htest : admissible (numbered base) avoid 1 =
      {i | 1 ≤ i ∧ (!avoid.any (·.contains (numbered base i))) = true} := by
    ext i
    simp [admissible]
  have hleast : IsLeast (admissible (numbered base) avoid 1)
      (leastFrom (fun i => !avoid.any (·.contains (numbered base i))) avoid.flatten.length 1) := by
    rw [htest] at hadmissible ⊢
    exact isLeast_leastFrom _ hj₁ hle hadmissible.2
  refine ⟨_, rfl, hleast, ?_⟩
  calc _ ≤ j := hleast.2 hadmissible
    _ ≤ 1 + avoid.flatten.dedup.length := hj₂
    _ = 1 + avoid.flatten.toFinset.card := by rw [List.card_toFinset]

/-! ### Fresh names -/

/-- **A fresh name is the least admissible one.**  Its stem is the base without the digits at its end, or
`v` where nothing is left or what is left does not start with a letter or an underscore.  Its number is
the least one from 1 on whose name is in none of the sets, and at most one more than there are different
names in the sets.  The search, which tries one name after the other, comes to it in as many rounds and
needs no further one.  If the base is a single identifier, so is the fresh name, and it is no keyword. -/
theorem fresh_is_least_admissible (base : Name) (avoid : List (List Name)) :
    ∃ kept digits, Trimmed base kept digits ∧
      let name (i : Nat) : Name :=
        (if kept.head?.any isWordStart then kept else utf8 "v") ++ Text.ofNat i
      ∃ i, fresh base avoid = name i ∧
        IsLeast {j | 1 ≤ j ∧ ∀ names ∈ avoid, name j ∉ names} i ∧
        i ≤ 1 + avoid.flatten.toFinset.card ∧
        (∀ call, (searchStep name avoid)^[i] call 1 = name i) ∧
        ((Lexer.ofText base).tokens = [⟨.identifier, base, 0⟩] →
          (Lexer.ofText (name i)).tokens = [⟨.identifier, name i, 0⟩] ∧
            name i ≠ utf8 "let" ∧ name i ≠ utf8 "in") := by
  refine ⟨_, _, trimmed_rdropWhile base, ?_⟩
  intro name
  have hname : numbered base = name := funext fun i => congrArg (· ++ Text.ofNat i) (stem_eq base)
  obtain ⟨i, hfresh, hleast, hbound⟩ := exists_isLeast_number base avoid
  rw [hname] at hfresh hleast
  refine ⟨i, hfresh, hleast, hbound, iterate_searchStep hleast (by omega), fun hbase => ?_⟩
  have hlex : (name i).Lexable := by
    rw [← hfresh]
    exact lexable_fresh (Lexer.tokens_eq_identifier_iff.1 hbase) avoid
  exact ⟨Lexer.tokens_eq_identifier_iff.2 hlex, hlex.ne_keyword⟩

/-- A base whose stem is a keyword, with two of its names taken, one of them twice. -/
theorem fresh_is_least_admissible_at_keyword :
    let base := utf8 "let07"
    let avoid := [[utf8 "let1", utf8 "x"], [], [utf8 "let2", utf8 "let1"]]
    (Lexer.ofText base).tokens = [⟨.identifier, base, 0⟩] ∧ fresh base avoid = utf8 "let3" ∧
      (Lexer.ofText (utf8 "let3")).tokens = [⟨.identifier, utf8 "let3", 0⟩] := by
  intro base avoid
  have hbase : (Lexer.ofText base).tokens = [⟨.identifier, base, 0⟩] :=
    Lexer.tokens_eq_identifier_iff.2 (by decide +kernel)
  have hfresh : fresh base avoid = utf8 "let3" := by decide +kernel
  obtain ⟨_, _, _, i, hname, _, _, _, htokens⟩ := fresh_is_least_admissible base avoid
  rw [← hname, hfresh] at htokens
  exact ⟨hbase, hfresh, (htokens hbase).1⟩

end Name

end CallByValue
