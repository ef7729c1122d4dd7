import CallByValue.Text

/-!
# Glyphs

A text is read as a sequence of glyphs: a valid UTF-8 sequence is one character, and a byte that
starts none stands for itself.  Reading loses nothing (`Glyph.bytes_append_of_next?`) and always
makes progress (`Glyph.length_lt_of_next?`).
-/

namespace CallByValue

/-- What a text is made of: characters, and bytes that belong to no character. -/
inductive Glyph where
  /-- A character, written in UTF-8. -/
  | char (c : Char)
  /-- A byte at which no character starts. -/
  | stray (b : UInt8)
  deriving DecidableEq, Repr

namespace Glyph

/-- The bytes that spell a glyph. -/
def bytes : Glyph → Text
  | .char c => String.utf8EncodeChar c
  | .stray b => [b]

/-- The character that a text starts with, if its first bytes are the UTF-8 form of one. -/
def leading? (t : Text) : Option Char := (t.take 4).toByteArray.utf8DecodeChar? 0

/-- The first glyph of a text and the text after it. -/
def next? : Text → Option (Glyph × Text)
  | [] => none
  | b :: rest =>
    match leading? (b :: rest) with
    | some c => some (.char c, (b :: rest).drop c.utf8Size)
    | none => some (.stray b, rest)

theorem bytes_prefix_of_leading? {t : Text} {c : Char} (h : leading? t = some c) :
    String.utf8EncodeChar c ++ t.drop c.utf8Size = t := by
  have h' := ByteArray.eq_of_utf8DecodeChar?_eq_some h
  have h2 := congrArg (fun b => b.data.toList) h'
  simp only [ByteArray.data_append, ByteArray.data_extract, Array.toList_append,
    List.data_toByteArray, Array.toList_extract] at h2
  have hlen : (String.utf8EncodeChar c).length = c.utf8Size := String.length_utf8EncodeChar c
  have htake : (t.take 4).take c.utf8Size = String.utf8EncodeChar c := by
    conv => lhs; rw [h2]
    rw [← hlen, List.take_left]
  have hle : c.utf8Size ≤ 4 := Char.utf8Size_le_four c
  rw [List.take_take, Nat.min_eq_left hle] at htake
  rw [← htake, List.take_append_drop]

theorem bytes_append_of_next? {t rest : Text} {g : Glyph} (h : next? t = some (g, rest)) :
    g.bytes ++ rest = t := by
  unfold next? at h
  split at h
  · simp at h
  · split at h
    · next c hc =>
      simp only [Option.some.injEq, Prod.mk.injEq] at h
      obtain ⟨rfl, rfl⟩ := h
      exact bytes_prefix_of_leading? hc
    · simp only [Option.some.injEq, Prod.mk.injEq] at h
      obtain ⟨rfl, rfl⟩ := h
      rfl

theorem length_bytes_pos (g : Glyph) : 0 < g.bytes.length := by
  cases g with
  | char c => rw [bytes, String.length_utf8EncodeChar]; exact Char.utf8Size_pos c
  | stray b => simp [bytes]

theorem length_lt_of_next? {t rest : Text} {g : Glyph} (h : next? t = some (g, rest)) :
    rest.length < t.length := by
  have := length_bytes_pos g
  rw [← bytes_append_of_next? h, List.length_append]
  omega

/-- The glyphs of a text, in order. -/
def all (t : Text) : List Glyph :=
  match _h : next? t with
  | none => []
  | some (g, rest) => g :: all rest
termination_by t.length
decreasing_by exact length_lt_of_next? ‹_›

/-- The character that a glyph shows; a stray byte shows as the replacement character. -/
def shown : Glyph → Char
  | .char c => c
  | .stray _ => Char.ofNat 0xfffd

/-- A glyph is blank if it is a white-space character. -/
def isBlank : Glyph → Bool
  | .char c => CallByValue.isBlank c
  | .stray _ => false

end Glyph

namespace Text

/-- The characters that a text shows. -/
def chars (t : Text) : List Char := (Glyph.all t).map Glyph.shown

/-- The text that spells some characters. -/
def ofChars (cs : List Char) : Text := cs.flatMap String.utf8EncodeChar

/-- The text with the replacement character in place of every stray byte. -/
def repaired (t : Text) : Text := ofChars t.chars

end Text

end CallByValue
