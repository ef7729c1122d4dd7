import CallByValue.Proofs.Term.Fresh
import CallByValue.Proofs.Text.Glyph
import CallByValue.Text.Quoted
import Mathlib.Data.List.Basic

/-!
# Texts of characters

A text that spells some characters shows those characters (`Text.chars_ofChars`), so texts without stray
bytes can be treated as lists of characters.  In quotes a text of printable characters shows them as
they are, apart from the quote and the backslash, which get a backslash (`Text.quoted_ofChars`).
-/

namespace CallByValue

namespace Text

variable {cs ds : List Char}

@[simp] theorem ofChars_nil : ofChars [] = [] := rfl

theorem ofChars_cons (c : Char) (cs : List Char) :
    ofChars (c :: cs) = String.utf8EncodeChar c ++ ofChars cs := rfl

@[simp] theorem ofChars_append (cs ds : List Char) :
    ofChars (cs ++ ds) = ofChars cs ++ ofChars ds := by
  simp [ofChars]

theorem all_ofChars (cs : List Char) : Glyph.all (ofChars cs) = cs.map .char := by
  induction cs with
  | nil =>
    rw [Glyph.all]
    rfl
  | cons c cs ih =>
    rw [Glyph.all]
    split
    · next h =>
      rw [ofChars_cons, Glyph.next?_utf8EncodeChar_append] at h
      simp at h
    · next g rest h =>
      rw [ofChars_cons, Glyph.next?_utf8EncodeChar_append] at h
      simp only [Option.some.injEq, Prod.mk.injEq] at h
      obtain ⟨rfl, rfl⟩ := h
      rw [ih, List.map_cons]

@[simp] theorem chars_ofChars (cs : List Char) : (ofChars cs).chars = cs := by
  rw [chars, all_ofChars, List.map_map]
  exact List.map_id cs

/-- An ASCII character is a single byte. -/
theorem utf8EncodeChar_of_ascii {c : Char} (h : c.toNat < 0x80) :
    String.utf8EncodeChar c = [c.toUInt8] := by
  refine String.utf8EncodeChar_eq_singleton (Char.utf8Size_eq_one_iff.2 ?_)
  exact UInt32.le_iff_toNat_le.2 (Nat.le_of_lt_succ h)

theorem ofChars_of_ascii (h : ∀ c ∈ cs, c.toNat < 0x80) : ofChars cs = cs.map Char.toUInt8 := by
  induction cs with
  | nil => rfl
  | cons c cs ih =>
    rw [List.forall_mem_cons] at h
    rw [ofChars_cons, utf8EncodeChar_of_ascii h.1, ih h.2, List.map_cons, List.singleton_append]

theorem ofUInt8_mem_of_mem_ofChars {b : UInt8} (hb : b < 0x80) (h : b ∈ ofChars cs) :
    Char.ofUInt8 b ∈ cs := by
  obtain ⟨c, hc, hmem⟩ := List.mem_flatMap.1 h
  exact Glyph.eq_ofUInt8_of_mem hb hmem ▸ hc

theorem ofChars_eq_cons {b : UInt8} {t : Text} (hb : b < 0x80) (h : ofChars cs = b :: t) :
    ∃ ds, cs = Char.ofUInt8 b :: ds ∧ ofChars ds = t := by
  cases cs with
  | nil => simp at h
  | cons c cs =>
    have hmem : b ∈ String.utf8EncodeChar c := by
      rw [ofChars_cons] at h
      cases hc : String.utf8EncodeChar c with
      | nil => simp at hc
      | cons a bs =>
        rw [hc, List.cons_append, List.cons.injEq] at h
        simp [h.1]
    obtain rfl := Glyph.eq_ofUInt8_of_mem hb hmem
    rw [ofChars_cons, Glyph.utf8EncodeChar_ofUInt8 hb, List.singleton_append, List.cons.injEq] at h
    exact ⟨cs, rfl, h.2⟩

/-! ### Digits -/

theorem ofNat_eq_ofChars (n : Nat) : ofNat n = ofChars (Nat.toDigits 10 n) := by
  refine (ofChars_of_ascii fun c hc => ?_).symm
  have hbound : c.toNat ≤ 57 := (toNat_of_mem_toDigits hc).2
  omega

/-! ### Quotes -/

/-- A character in quotes. -/
def escaped (c : Char) : List Char := if c = '"' ∨ c = '\\' then ['\\', c] else [c]

theorem mem_escaped {c d : Char} (h : d ∈ escaped c) : d = '\\' ∨ d = c := by
  rw [escaped] at h
  split at h <;> simp_all

theorem length_le_escaped (cs : List Char) : cs.length ≤ (cs.flatMap escaped).length := by
  induction cs with
  | nil => simp
  | cons c cs ih =>
    have hpos : 1 ≤ (escaped c).length := by
      rw [escaped]
      split <;> simp
    rw [List.flatMap_cons, List.length_append, List.length_cons]
    omega

theorem char_eq_escaped {c : Char} (h : isPrintable c = true) :
    Quoted.char c = ofChars (escaped c) := by
  rw [Quoted.char, escaped]
  split
  · simp [ofChars, utf8]
  · simp [ofChars]

theorem quoted_ofChars (h : ∀ c ∈ cs, isPrintable c = true) :
    (ofChars cs).quoted = ofChars ('"' :: cs.flatMap escaped ++ ['"']) := by
  have hchars : (cs.map Glyph.char).flatMap Quoted.glyph = ofChars (cs.flatMap escaped) := by
    rw [ofChars, List.flatMap_assoc, List.flatMap_map]
    exact List.flatMap_congr fun c hc => char_eq_escaped (h c hc)
  rw [quoted, all_ofChars, hchars, List.cons_append, ofChars_cons, ofChars_append]
  rfl

end Text

end CallByValue
