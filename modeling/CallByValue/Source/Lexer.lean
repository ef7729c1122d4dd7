import CallByValue.Source.Token

/-!
# The lexer

A source is cut into tokens.  Between tokens stand white space and comments, which run from `#` to
the end of the line.  A letter or underscore starts a word of letters, digits and underscores; `let`
and `in` are words of their own, every other word is an identifier.  Any other glyph is a token by
itself, an identifier unless it is one of the punctuation marks.

`Lexer.next` reads one token and `Lexer.tokens` all of them; every token but the end takes at least
one byte (`Lexer.rest_next_lt`).
-/

namespace CallByValue

/-- The white space and comments that a text starts with, and the text after them. -/
def splitLayout (s : Text) : Text × Text :=
  match _h : Glyph.next? s with
  | none => ([], s)
  | some (g, rest) =>
    if g.isBlank then (splitLayout rest).map (g.bytes ++ ·) id
    else if g = .char '#' then
      (splitLayout (rest.dropWhile (· != Text.newline))).map
        (g.bytes ++ rest.takeWhile (· != Text.newline) ++ ·) id
    else ([], s)
termination_by s.length
decreasing_by
  · exact Glyph.length_lt_of_next? ‹_›
  · exact Nat.lt_of_le_of_lt (List.dropWhile_sublist _).length_le (Glyph.length_lt_of_next? ‹_›)

/-- The kind of a word. -/
def wordKind (w : Text) : Token.Kind :=
  if w = utf8 "let" then .letWord else if w = utf8 "in" then .inWord else .identifier

/-- The kind of a glyph that starts no word. -/
def glyphKind : Glyph → Token.Kind
  | .char '\\' => .lambda
  | .char 'λ' => .lambda
  | .char '.' => .dot
  | .char ':' => .colon
  | .char '=' => .equals
  | .char ';' => .semicolon
  | .char '(' => .leftParen
  | .char ')' => .rightParen
  | _ => .identifier

/-- The first lexeme of a text that starts with neither white space nor a comment: its kind, its
bytes and the text after it. -/
def lexeme? (s : Text) : Option (Token.Kind × Text × Text) :=
  match s with
  | [] => none
  | b :: _ =>
    if isWordStart b then
      let w := s.takeWhile isWordByte
      some (wordKind w, w, s.dropWhile isWordByte)
    else (Glyph.next? s).map fun (g, rest) => (glyphKind g, g.bytes, rest)

theorem length_lt_of_lexeme? {s w rest : Text} {k : Token.Kind}
    (h : lexeme? s = some (k, w, rest)) : rest.length < s.length := by
  unfold lexeme? at h
  split at h
  · simp at h
  · next b r =>
    split at h
    · next hb =>
      simp only [Option.some.injEq, Prod.mk.injEq] at h
      obtain ⟨-, -, rfl⟩ := h
      have hw : isWordByte b = true := by simp [isWordByte, hb]
      rw [List.dropWhile_cons_of_pos hw]
      exact Nat.lt_succ_of_le (List.dropWhile_sublist _).length_le
    · simp only [Option.map_eq_some_iff, Prod.mk.injEq] at h
      obtain ⟨⟨g, r'⟩, hg, -, -, rfl⟩ := h
      exact Glyph.length_lt_of_next? hg

theorem length_splitLayout_le (s : Text) : (splitLayout s).2.length ≤ s.length := by
  fun_induction splitLayout s with
  | case1 => simp
  | case2 s g rest h _ ih =>
    exact Nat.le_of_lt (Nat.lt_of_le_of_lt ih (Glyph.length_lt_of_next? h))
  | case3 s rest h _ ih =>
    exact Nat.le_trans ih (Nat.le_trans (List.dropWhile_sublist _).length_le
      (Nat.le_of_lt (Glyph.length_lt_of_next? h)))
  | case4 => simp

/-- A place in a source: the offset and the text from there on. -/
structure Lexer where
  /-- The offset. -/
  pos : Nat
  /-- The source from the offset on. -/
  rest : Text
  deriving DecidableEq, Repr

namespace Lexer

/-- The start of a source. -/
def ofText (s : Text) : Lexer := ⟨0, s⟩

/-- The next token and the place after it.  At the end the same token is read again and again. -/
def next (l : Lexer) : Token × Lexer :=
  let (layout, s) := splitLayout l.rest
  let start := l.pos + layout.length
  match lexeme? s with
  | none => (.atEnd start, ⟨start, s⟩)
  | some (k, w, rest) => (⟨k, w, start⟩, ⟨start + w.length, rest⟩)

theorem kind_ne_endOfInput_of_lexeme? {s w rest : Text} {k : Token.Kind}
    (h : lexeme? s = some (k, w, rest)) : k ≠ .endOfInput := by
  unfold lexeme? at h
  split at h
  · simp at h
  · split at h
    · simp only [Option.some.injEq, Prod.mk.injEq, wordKind] at h
      obtain ⟨rfl, -, -⟩ := h
      split
      · simp
      · split <;> simp
    · simp only [Option.map_eq_some_iff, Prod.mk.injEq] at h
      obtain ⟨⟨g, r'⟩, -, rfl, -, -⟩ := h
      unfold glyphKind
      split <;> simp

theorem rest_next_lt {l : Lexer} (h : l.next.1.kind ≠ .endOfInput) :
    l.next.2.rest.length < l.rest.length := by
  have hle := length_splitLayout_le l.rest
  unfold next at h ⊢
  simp only at h ⊢
  split at h
  · simp [Token.atEnd] at h
  · next k w rest hx =>
    exact Nat.lt_of_lt_of_le (length_lt_of_lexeme? hx) hle

/-- All tokens from a place on, without the end. -/
def tokens (l : Lexer) : List Token :=
  if _h : l.next.1.kind = .endOfInput then []
  else l.next.1 :: tokens l.next.2
termination_by l.rest.length
decreasing_by exact rest_next_lt ‹_›

end Lexer

end CallByValue
