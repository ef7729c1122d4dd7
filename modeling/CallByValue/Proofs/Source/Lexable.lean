import CallByValue.Proofs.Term.Reduce
import CallByValue.Proofs.Term.Subst
import CallByValue.Proofs.Text.Glyph
import CallByValue.Term.Alpha
import Mathlib.Logic.Relation

/-!
# Names that a source can spell

A name is lexable if it can stand in a source as one identifier: it is a word other than `let` and
`in`, or a single glyph without a meaning of its own.  A term is lexable if all its names are.

Fresh and canonical names end in a digit behind a word, so they are lexable
(`Name.lexable_append_ofNat`), and substitution, reduction and canonical naming invent no other
names.  Hence they keep terms lexable (`Term.Lexable.subst`, `Term.Lexable.of_reduces`,
`Term.Lexable.canonical`).
-/

namespace CallByValue

/-- The characters that are no names: lambdas, the other punctuation and the start of a comment. -/
def marks : List Char := ['\\', 'λ', '.', ':', '=', ';', '(', ')', '#']

/-- White space and marks. -/
def Glyph.isReserved (g : Glyph) : Bool := g.isBlank || g ∈ marks.map Glyph.char

/-! ### Names -/

/-- The bytes of words are ASCII. -/
theorem lt_of_isWordByte {b : UInt8} (h : isWordByte b = true) : b < 0x80 := by
  simp only [isWordByte, isWordStart, isDigit, Bool.or_eq_true, Bool.and_eq_true, decide_eq_true_eq,
    beq_iff_eq, UInt8.le_iff_toNat_le, ← UInt8.toNat_inj, UInt8.reduceToNat] at h
  simp only [UInt8.lt_iff_toNat_lt, UInt8.reduceToNat]
  omega

theorem isWordByte_of_isWordStart {b : UInt8} (h : isWordStart b = true) : isWordByte b = true := by
  rw [isWordByte, h, Bool.true_or]

/-- A single glyph that starts like a word is a single letter. -/
theorem Glyph.eq_nil_of_isWordStart {b : UInt8} {rest : Text} {g : Glyph}
    (hb : isWordStart b = true) (h : all (b :: rest) = [g]) : rest = [] := by
  have hnext := all_eq_singleton_iff.1 h
  rw [next?_ascii (lt_of_isWordByte (isWordByte_of_isWordStart hb)), Option.some.injEq,
    Prod.mk.injEq] at hnext
  exact hnext.2

namespace Name

/-- A letter or underscore, and then letters, underscores and digits. -/
def isWord : Name → Bool
  | [] => false
  | b :: rest => isWordStart b && rest.all isWordByte

/-- A word that is no keyword, or a single glyph that is not reserved. -/
def Lexable (x : Name) : Prop :=
  (x.isWord = true ∧ x ≠ utf8 "let" ∧ x ≠ utf8 "in") ∨ (Glyph.all x).map Glyph.isReserved = [false]

instance : DecidablePred Lexable := fun x =>
  inferInstanceAs (Decidable ((x.isWord = true ∧ x ≠ utf8 "let" ∧ x ≠ utf8 "in") ∨
    (Glyph.all x).map Glyph.isReserved = [false]))

theorem Lexable.ne_keyword {x : Name} (h : x.Lexable) : x ≠ utf8 "let" ∧ x ≠ utf8 "in" := by
  rcases h with ⟨-, hlet, hin⟩ | hsingle
  · exact ⟨hlet, hin⟩
  · refine ⟨?_, ?_⟩
    · rintro rfl
      exact absurd hsingle (by decide +kernel)
    · rintro rfl
      exact absurd hsingle (by decide +kernel)

/-- A lexable name that starts like a word is one. -/
theorem Lexable.isWord {b : UInt8} {rest : Name} (h : Lexable (b :: rest))
    (hb : isWordStart b = true) : isWord (b :: rest) = true := by
  rcases h with ⟨hword, -, -⟩ | hsingle
  · exact hword
  · obtain ⟨g, hg, -⟩ := List.map_eq_singleton_iff.1 hsingle
    rw [Glyph.eq_nil_of_isWordStart hb hg]
    simp [Name.isWord, hb]

/-- A lexable name that does not start like a word is a glyph. -/
theorem Lexable.glyph {b : UInt8} {rest : Name} (h : Lexable (b :: rest))
    (hb : isWordStart b = false) : ∃ g, Glyph.all (b :: rest) = [g] ∧ g.isReserved = false := by
  rcases h with ⟨hword, -, -⟩ | hsingle
  · simp [Name.isWord, hb] at hword
  · exact List.map_eq_singleton_iff.1 hsingle

theorem isWord_append {w v : Name} (hw : w.isWord = true) (hv : ∀ b ∈ v, isWordByte b = true) :
    isWord (w ++ v) = true := by
  cases w with
  | nil => simp [isWord] at hw
  | cons b rest =>
    rw [List.cons_append]
    simp only [isWord, List.all_append, Bool.and_eq_true, List.all_eq_true] at hw ⊢
    exact ⟨hw.1, hw.2, hv⟩

/-- A word that ends in a number is no keyword. -/
theorem lexable_append_ofNat {w : Name} (hw : w.isWord = true) (i : Nat) :
    Lexable (w ++ Text.ofNat i) := by
  have hdigits : ∀ b ∈ Text.ofNat i, isWordByte b = true := fun b hb => by
    rw [isWordByte, Text.isDigit_of_mem_ofNat hb, Bool.or_true]
  have hlast : ∀ k : Text, k.getLast?.any isDigit = false → w ++ Text.ofNat i ≠ k := by
    rintro k hk rfl
    rw [List.getLast?_append_of_ne_nil _ (Text.ofNat_ne_nil i),
      List.getLast?_eq_some_getLast (Text.ofNat_ne_nil i), Option.any_some,
      Text.isDigit_of_mem_ofNat (List.getLast_mem _)] at hk
    exact absurd hk (by decide)
  refine Or.inl ⟨isWord_append hw hdigits, hlast _ ?_, hlast _ ?_⟩
  · decide
  · decide

theorem isWord_stem {base : Name} (h : base.Lexable) : (stem base).isWord = true := by
  have hv : isWord (utf8 "v") = true := by decide
  have hpre : (base.reverse.dropWhile isDigit).reverse <+: base := by
    rw [← List.reverse_suffix, List.reverse_reverse]
    exact List.dropWhile_suffix _
  unfold stem
  split
  · exact hv
  · next b s hs =>
    rw [hs] at hpre
    obtain ⟨rest, rfl⟩ := hpre
    split
    · next hb =>
      have hword : isWord (b :: (s ++ rest)) = true := h.isWord hb
      rw [isWord, List.all_append, Bool.and_eq_true, Bool.and_eq_true] at hword
      rw [isWord, hb, hword.2.1, Bool.and_self]
    · exact hv

theorem lexable_fresh {base : Name} (h : base.Lexable) (avoid : List (List Name)) :
    (fresh base avoid).Lexable :=
  lexable_append_ofNat (isWord_stem h) _

end Name

/-! ### Terms -/

namespace Term

/-- All names of a term are lexable. -/
def Lexable : Term → Prop
  | var x => x.Lexable
  | abs x b => x.Lexable ∧ b.Lexable
  | app f a => f.Lexable ∧ a.Lexable

instance decidableLexable : DecidablePred Lexable
  | var x => inferInstanceAs (Decidable x.Lexable)
  | abs x b => @instDecidableAnd _ _ (inferInstanceAs (Decidable x.Lexable)) (decidableLexable b)
  | app f a => @instDecidableAnd _ _ (decidableLexable f) (decidableLexable a)

theorem Lexable.subst {t r : Term} (ht : t.Lexable) (hr : r.Lexable) (x : Name) :
    (t.subst r x).Lexable := by
  induction t, r, x using subst_induction with
  | var y r x =>
    rw [subst_var]
    split
    · exact hr
    · exact ht
  | app f a r x ihf iha =>
    rw [subst_app]
    exact ⟨ihf ht.1 hr, iha ht.2 hr⟩
  | bound b r x => rwa [subst_abs_self]
  | renamed y b r x z hz hyx hy ihrename ih =>
    have hlex : z.Lexable := hz ▸ Name.lexable_fresh ht.1 _
    rw [subst_abs_of_mem hz hyx hy]
    exact ⟨hlex, ih (ihrename ht.2 hlex) hr⟩
  | kept y b r x hyx hy ih =>
    rw [subst_abs_of_notMem hyx hy]
    exact ⟨ht.1, ih ht.2 hr⟩

theorem Lexable.reduce {t u : Term} (ht : t.Lexable) (h : t.reduce = some u) : u.Lexable := by
  induction h using reduce_induction with
  | contract x b w _ => exact ht.1.2.subst ht.2 x
  | fn f f' a _ ih => exact ⟨ih ht.1, ht.2⟩
  | arg x b a a' _ ih => exact ⟨ht.1, ih ht.2⟩

/-- Any number of steps. -/
def Reduces : Term → Term → Prop := Relation.ReflTransGen fun t u => t.reduce = some u

theorem Lexable.of_reduces {t u : Term} (ht : t.Lexable) (h : t.Reduces u) : u.Lexable := by
  induction h with
  | refl => exact ht
  | tail _ hstep ih => exact ih.reduce hstep

theorem lexable_canonicalName (i : Nat) : (canonicalName i).Lexable :=
  Name.lexable_append_ofNat (by decide) i

theorem Lexable.canonicalIn {t : Term} (ht : t.Lexable) (avoid : List Name)
    {s : NameMap Name × Nat} (hs : ∀ x y, s.1.get? x = some y → Name.Lexable y) :
    (canonicalIn avoid t s).1.Lexable := by
  induction t generalizing s with
  | var x =>
    rw [Term.canonicalIn, NameMap.getD]
    cases hx : s.1.get? x with
    | none => exact ht
    | some y => exact hs x y hx
  | abs x b ih =>
    refine ⟨lexable_canonicalName _, ih ht.2 fun y z hz => ?_⟩
    rw [NameMap.get?_set] at hz
    split at hz
    · rw [← Option.some.inj hz]
      exact lexable_canonicalName _
    · exact hs y z hz
  | app f a ihf iha =>
    refine ⟨ihf ht.1 hs, iha ht.2 fun x y hy => hs x y ?_⟩
    rwa [get?_canonicalIn] at hy

theorem Lexable.canonical {t : Term} (ht : t.Lexable) : t.canonical.Lexable :=
  ht.canonicalIn _ (by simp)

end Term

end CallByValue
