import CallByValue.Text.Glyph
import Mathlib.Data.Nat.Bitwise

/-!
# Reading glyphs back

A glyph that is written down is read again as the same glyph, whatever follows it, with one proviso:
a stray byte could be the start of a character whose other bytes follow.  The first byte of a character
never goes on with another one, so a stray byte stays one if a text that begins like a character is put
in behind it (`Glyph.next?_insert`).  In particular it is safe at the end of a text and before ASCII
(`Glyph.next?_bytes_append`).
-/

namespace CallByValue

namespace Glyph

/-! ### Characters -/

theorem leading?_utf8EncodeChar_append (c : Char) (rest : Text) :
    leading? (String.utf8EncodeChar c ++ rest) = some c := by
  have htake : (String.utf8EncodeChar c ++ rest).take 4 =
      String.utf8EncodeChar c ++ rest.take (4 - c.utf8Size) := by
    rw [List.take_append, String.length_utf8EncodeChar, List.take_of_length_le]
    rw [String.length_utf8EncodeChar]
    exact Char.utf8Size_le_four c
  rw [leading?, htake, List.toByteArray_append]
  exact ByteArray.utf8DecodeChar?_utf8EncodeChar_append

theorem next?_of_leading? {t : Text} {c : Char} (h : leading? t = some c) :
    next? t = some (.char c, t.drop c.utf8Size) := by
  cases t with
  | nil =>
    have hlen := congrArg List.length (bytes_prefix_of_leading? h)
    have := Char.utf8Size_pos c
    simp only [List.length_append, String.length_utf8EncodeChar, List.length_nil] at hlen
    omega
  | cons b rest => simp only [next?, h]

theorem next?_utf8EncodeChar_append (c : Char) (rest : Text) :
    next? (String.utf8EncodeChar c ++ rest) = some (.char c, rest) := by
  rw [next?_of_leading? (leading?_utf8EncodeChar_append c rest), ← String.length_utf8EncodeChar,
    List.drop_left]

theorem utf8EncodeChar_ofUInt8 {b : UInt8} (hb : b < 0x80) :
    String.utf8EncodeChar (Char.ofUInt8 b) = [b] := by
  have hb' : b.toNat < 128 := UInt8.lt_iff_toNat_lt.1 hb
  have hval : (Char.ofUInt8 b).val = b.toUInt32 := rfl
  have hsize : (Char.ofUInt8 b).utf8Size = 1 := by
    rw [Char.utf8Size_eq_one_iff, hval, UInt32.le_iff_toNat_le, UInt8.toNat_toUInt32]
    exact Nat.le_of_lt_succ hb'
  rw [String.utf8EncodeChar_eq_singleton hsize, hval, UInt8.toUInt8_toUInt32]

/-- An ASCII byte is a character whatever follows it. -/
theorem next?_ascii {b : UInt8} (hb : b < 0x80) (rest : Text) :
    next? (b :: rest) = some (.char (Char.ofUInt8 b), rest) := by
  have h := next?_utf8EncodeChar_append (Char.ofUInt8 b) rest
  rwa [utf8EncodeChar_ofUInt8 hb] at h

/-! ### Stray bytes -/

/-- An ASCII byte starts a character. -/
theorem isUTF8FirstByte_of_ascii {b : UInt8} (hb : b < 0x80) : b.IsUTF8FirstByte := by
  refine Or.inl (UInt8.toNat_inj.1 ?_)
  have hbit := Nat.testBit_lt_two_pow (i := 7) (UInt8.lt_iff_toNat_lt.1 hb)
  rw [UInt8.toNat_and]
  exact (Nat.and_two_pow b.toNat 7).trans (by rw [hbit]; rfl)

/-- An ASCII byte of a character is the character. -/
theorem eq_ofUInt8_of_mem {c : Char} {b : UInt8} (hb : b < 0x80) (h : b ∈ String.utf8EncodeChar c) :
    c = Char.ofUInt8 b := by
  obtain ⟨i, hi, hget⟩ := List.getElem_of_mem h
  have hfirst : (String.utf8EncodeChar c)[i].IsUTF8FirstByte := hget ▸ isUTF8FirstByte_of_ascii hb
  obtain rfl := UInt8.isUTF8FirstByte_getElem_utf8EncodeChar.1 hfirst
  obtain ⟨rest, hrest⟩ : ∃ rest, String.utf8EncodeChar c = b :: rest := by
    rw [← List.head?_eq_some_iff, List.head?_eq_getElem?, List.getElem?_eq_getElem hi, hget]
  have hchar := next?_utf8EncodeChar_append c []
  rw [hrest, List.cons_append, next?_ascii hb] at hchar
  simp only [Option.some.injEq, Prod.mk.injEq, Glyph.char.injEq] at hchar
  exact hchar.1.symm

/-- Where no character starts, none starts after a text has been put in between either, if that text
begins like a character. -/
theorem leading?_insert_eq_none {b : UInt8} {u w rest : Text} (h : leading? (b :: (u ++ rest)) = none)
    (hw : ∀ a ∈ w.head?, a.IsUTF8FirstByte) : leading? (b :: (u ++ (w ++ rest))) = none := by
  cases w with
  | nil => exact h
  | cons a w =>
    rw [Option.eq_none_iff_forall_ne_some] at h ⊢
    intro c hc
    have hbytes := bytes_prefix_of_leading? hc
    -- the bytes of the character end before the text or reach into it
    rcases Nat.lt_or_ge (u.length + 1) (String.utf8EncodeChar c).length with hlt | hge
    · have hget : (String.utf8EncodeChar c)[u.length + 1] = a := by
        have hleft : (b :: (u ++ (a :: w ++ rest)))[u.length + 1]? =
            (String.utf8EncodeChar c)[u.length + 1]? := by
          rw [← hbytes, List.getElem?_append_left hlt]
        rw [List.getElem?_eq_getElem hlt] at hleft
        simpa using hleft.symm
      have hfirst := hw a rfl
      rw [← hget, UInt8.isUTF8FirstByte_getElem_utf8EncodeChar] at hfirst
      omega
    · have hchar : String.utf8EncodeChar c <+: b :: (u ++ (a :: w ++ rest)) := ⟨_, hbytes⟩
      have htext : b :: u <+: b :: (u ++ (a :: w ++ rest)) := ⟨a :: w ++ rest, rfl⟩
      obtain ⟨v, hv⟩ := List.prefix_of_prefix_length_le hchar htext hge
      refine h c ?_
      rw [← List.cons_append, ← hv, List.append_assoc]
      exact leading?_utf8EncodeChar_append c _

/-- A byte at which no character starts starts none before the end or before ASCII either. -/
theorem leading?_eq_none_of_ascii {b : UInt8} {rest : Text} (h : leading? [b] = none)
    (hrest : ∀ a ∈ rest.head?, a < 0x80) : leading? (b :: rest) = none := by
  have hfirst : ∀ a ∈ rest.head?, a.IsUTF8FirstByte :=
    fun a ha => isUTF8FirstByte_of_ascii (hrest a ha)
  have hinsert : leading? (b :: ([] ++ (rest ++ []))) = none := leading?_insert_eq_none h hfirst
  rwa [List.nil_append, List.append_nil] at hinsert

theorem leading?_singleton_eq_none {b : UInt8} {rest : Text} (h : leading? (b :: rest) = none) :
    leading? [b] = none := by
  rw [Option.eq_none_iff_forall_ne_some] at h ⊢
  intro c hc
  have hbytes := bytes_prefix_of_leading? hc
  have hlen := congrArg List.length hbytes
  have := Char.utf8Size_pos c
  rw [List.length_append, String.length_utf8EncodeChar, List.length_drop, List.length_singleton]
    at hlen
  rw [List.drop_eq_nil_of_le (by rw [List.length_singleton]; omega), List.append_nil] at hbytes
  refine h c ?_
  rw [← List.singleton_append, ← hbytes]
  exact leading?_utf8EncodeChar_append c rest

/-! ### Single glyphs -/

/-- A glyph that is read is also read where nothing follows it. -/
theorem next?_bytes_of_next? {t rest : Text} {g : Glyph} (h : next? t = some (g, rest)) :
    next? g.bytes = some (g, []) := by
  cases g with
  | char c =>
    have hc := next?_utf8EncodeChar_append c []
    rwa [List.append_nil] at hc
  | stray b =>
    cases t with
    | nil => simp [next?] at h
    | cons a t =>
      simp only [next?] at h
      split at h
      · simp at h
      · next hnone =>
        simp only [Option.some.injEq, Prod.mk.injEq, stray.injEq] at h
        obtain ⟨rfl, rfl⟩ := h
        simp only [bytes, next?, leading?_singleton_eq_none hnone]

/-- A glyph is read again at the end of a text and before ASCII. -/
theorem next?_bytes_append {g : Glyph} {rest : Text} (h : next? g.bytes = some (g, []))
    (hrest : ∀ a ∈ rest.head?, a < 0x80) : next? (g.bytes ++ rest) = some (g, rest) := by
  cases g with
  | char c => exact next?_utf8EncodeChar_append c rest
  | stray b =>
    simp only [bytes, next?] at h
    split at h
    · simp at h
    · next hnone =>
      simp only [bytes, List.singleton_append, next?, leading?_eq_none_of_ascii hnone hrest]

/-- A glyph that is read is also read after a text has been put in somewhere behind it, if that text
begins like a character. -/
theorem next?_insert {g : Glyph} {u w rest : Text}
    (h : next? (g.bytes ++ (u ++ rest)) = some (g, u ++ rest))
    (hw : ∀ a ∈ w.head?, a.IsUTF8FirstByte) :
    next? (g.bytes ++ (u ++ (w ++ rest))) = some (g, u ++ (w ++ rest)) := by
  cases g with
  | char c => exact next?_utf8EncodeChar_append c _
  | stray b =>
    simp only [bytes, List.singleton_append, next?] at h ⊢
    split at h
    · simp at h
    · next hnone => rw [leading?_insert_eq_none hnone hw]

theorem all_eq_singleton_iff {t : Text} {g : Glyph} : all t = [g] ↔ next? t = some (g, []) := by
  rw [all]
  split
  · next h => simp [h]
  · next g' rest h =>
    rw [h, List.cons.injEq, Option.some.injEq, Prod.mk.injEq]
    refine and_congr_right fun _ => ⟨fun hall => ?_, fun hrest => ?_⟩
    · cases rest with
      | nil => rfl
      | cons b rest =>
        rw [all] at hall
        split at hall
        · next hnext => cases hlead : leading? (b :: rest) <;> simp [next?, hlead] at hnext
        · exact absurd hall (by simp)
    · rw [hrest, all]
      rfl

end Glyph

end CallByValue
