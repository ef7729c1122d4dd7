import CallByValue.Proofs.Source.Lexable
import CallByValue.Source.Lexer

/-!
# The tokens of a text

What the lexer makes of a text that starts with a space, a mark or a name.  A mark is one token
whatever follows it.  A name is one token if something stands behind it that it cannot swallow, the
end of the text or an ASCII byte that is part of no word (`Separated`).

Conversely every identifier of a source is a lexable name (`Lexer.lexable_of_mem_tokens`), so the lexable
names are exactly the texts that are one identifier (`Lexer.tokens_eq_identifier_iff`).
-/

namespace CallByValue

/-- What may stand behind a name: nothing, or an ASCII byte that is part of no word. -/
def Separated (rest : Text) : Prop := rest.head?.all (fun b => b < 0x80 && !isWordByte b) = true

instance (rest : Text) : Decidable (Separated rest) := instDecidableEqBool _ _

theorem separated_iff {rest : Text} :
    Separated rest ↔ ∀ b ∈ rest.head?, b < 0x80 ∧ isWordByte b = false := by
  simp [Separated, Option.all_eq_true]

theorem separated_nil : Separated [] := rfl

theorem separated_append {s : Text} (hs : s ≠ []) (h : Separated s) (rest : Text) :
    Separated (s ++ rest) := by
  rw [Separated, List.head?_append_of_ne_nil _ hs]
  exact h

/-! ### Layout -/

theorem splitLayout_of_next? {s rest : Text} {g : Glyph} (h : Glyph.next? s = some (g, rest)) :
    splitLayout s =
      if g.isBlank then (splitLayout rest).map (g.bytes ++ ·) id
      else if g = .char '#' then
        (splitLayout (rest.dropWhile (· != Text.newline))).map
          (g.bytes ++ rest.takeWhile (· != Text.newline) ++ ·) id
      else ([], s) := by
  rw [splitLayout]
  split
  · next hnone => simp [h] at hnone
  · next g' rest' hsome =>
    rw [h] at hsome
    simp only [Option.some.injEq, Prod.mk.injEq] at hsome
    obtain ⟨rfl, rfl⟩ := hsome
    rfl

theorem splitLayout_nil : splitLayout [] = ([], []) := by
  rw [splitLayout]
  rfl

theorem splitLayout_of_isBlank {s rest : Text} {g : Glyph} (h : Glyph.next? s = some (g, rest))
    (hg : g.isBlank = true) :
    splitLayout s = (g.bytes ++ (splitLayout rest).1, (splitLayout rest).2) := by
  rw [splitLayout_of_next? h, if_pos hg]
  rfl

theorem splitLayout_eq_self {s rest : Text} {g : Glyph} (h : Glyph.next? s = some (g, rest))
    (hg : g.isBlank = false) (hhash : g ≠ .char '#') : splitLayout s = ([], s) := by
  rw [splitLayout_of_next? h, if_neg (by simp [hg]), if_neg hhash]

/-- Behind the layout stands neither white space nor a comment. -/
theorem next?_splitLayout {s rest : Text} {g : Glyph}
    (h : Glyph.next? (splitLayout s).2 = some (g, rest)) : g.isBlank = false ∧ g ≠ .char '#' := by
  fun_induction splitLayout s with
  | case1 s hnone => simp [hnone] at h
  | case2 s g' rest' hsome hblank ih => exact ih h
  | case3 s rest' hsome hblank ih => exact ih h
  | case4 s g' rest' hsome hblank hhash =>
    rw [hsome] at h
    simp only [Option.some.injEq, Prod.mk.injEq] at h
    obtain ⟨rfl, rfl⟩ := h
    exact ⟨by simpa using hblank, hhash⟩

theorem not_layout_of_isWordStart {b : UInt8} (h : isWordStart b = true) :
    (Glyph.char (Char.ofUInt8 b)).isBlank = false ∧ Glyph.char (Char.ofUInt8 b) ≠ .char '#' := by
  have hn : (Char.ofUInt8 b).toNat = b.toNat := UInt8.toNat_toUInt32 b
  simp only [isWordStart, Bool.or_eq_true, Bool.and_eq_true, decide_eq_true_eq, beq_iff_eq,
    UInt8.le_iff_toNat_le, ← UInt8.toNat_inj, UInt8.reduceToNat] at h
  refine ⟨?_, fun hc => ?_⟩
  · simp only [Glyph.isBlank, isBlank, hn, Bool.or_eq_false_iff, Bool.and_eq_false_iff,
      decide_eq_false_iff_not, beq_eq_false_iff_ne]
    omega
  · have hhash := congrArg Char.toNat (Glyph.char.inj hc)
    rw [hn] at hhash
    have : ('#' : Char).toNat = 35 := rfl
    omega

/-! ### Lexemes -/

theorem glyphKind_eq_identifier_iff {g : Glyph} (hhash : g ≠ .char '#') :
    glyphKind g = .identifier ↔ g ∉ marks.map Glyph.char := by
  constructor
  · intro hk hmem
    obtain ⟨c, hc, rfl⟩ := List.mem_map.1 hmem
    have hkinds : ∀ c ∈ marks, c ≠ '#' → glyphKind (.char c) ≠ .identifier :=
      List.forall_iff_forall_mem.1 (by decide)
    exact hkinds c hc (fun he => hhash (congrArg Glyph.char he)) hk
  · contrapose!
    unfold glyphKind
    split <;> simp [marks]

theorem lexeme?_word {w rest : Text} (hw : Name.isWord w = true)
    (hrest : ∀ b ∈ rest.head?, isWordByte b = false) :
    lexeme? (w ++ rest) = some (wordKind w, w, rest) := by
  cases w with
  | nil => simp [Name.isWord] at hw
  | cons b w =>
    rw [Name.isWord, Bool.and_eq_true, List.all_eq_true] at hw
    have hall : ∀ a ∈ b :: w, isWordByte a = true := by
      intro a ha
      rcases List.mem_cons.1 ha with rfl | ha
      · exact isWordByte_of_isWordStart hw.1
      · exact hw.2 a ha
    have hstop : rest.takeWhile isWordByte = [] ∧ rest.dropWhile isWordByte = rest := by
      cases rest with
      | nil => exact ⟨rfl, rfl⟩
      | cons a rest =>
        have ha := hrest a rfl
        simp [ha]
    have htake : (b :: (w ++ rest)).takeWhile isWordByte = b :: w := by
      rw [← List.cons_append, List.takeWhile_append_of_pos hall, hstop.1, List.append_nil]
    have hdrop : (b :: (w ++ rest)).dropWhile isWordByte = rest := by
      rw [← List.cons_append, List.dropWhile_append_of_pos hall, hstop.2]
    rw [List.cons_append]
    simp only [lexeme?, if_pos hw.1, htake, hdrop]

theorem lexeme?_glyph {s rest : Text} {g : Glyph} (h : Glyph.next? s = some (g, rest))
    (hs : s.head?.any isWordStart = false) : lexeme? s = some (glyphKind g, g.bytes, rest) := by
  cases s with
  | nil => simp [Glyph.next?] at h
  | cons b s =>
    have hb : isWordStart b = false := hs
    simp only [lexeme?, hb, Bool.false_eq_true, if_false, h, Option.map_some]

/-- A lexeme is a word that ends where no further byte of a word stands, or a glyph that starts no
word. -/
theorem lexeme?_cases {s w rest : Text} {k : Token.Kind} (h : lexeme? s = some (k, w, rest)) :
    (Name.isWord w = true ∧ k = wordKind w ∧ ∀ b ∈ rest.head?, isWordByte b = false) ∨
      ∃ g : Glyph, Glyph.next? s = some (g, rest) ∧ w = g.bytes ∧ k = glyphKind g ∧
        s.head?.any isWordStart = false := by
  cases s with
  | nil => simp [lexeme?] at h
  | cons b r =>
    simp only [lexeme?] at h
    split at h
    · next hb =>
      simp only [Option.some.injEq, Prod.mk.injEq] at h
      obtain ⟨rfl, rfl, rfl⟩ := h
      refine Or.inl ⟨?_, rfl, fun a ha => ?_⟩
      · rw [List.takeWhile_cons_of_pos (isWordByte_of_isWordStart hb), Name.isWord, hb,
          Bool.true_and, List.all_takeWhile]
      · have hstop := List.head?_dropWhile_not isWordByte (b :: r)
        rw [Option.mem_def.1 ha] at hstop
        simpa using hstop
    · next hb =>
      simp only [Option.map_eq_some_iff, Prod.mk.injEq] at h
      obtain ⟨⟨g, r'⟩, hg, rfl, rfl, rfl⟩ := h
      exact Or.inr ⟨g, hg, rfl, rfl, by simpa using hb⟩

/-- A lexeme behind the layout is a word, or a glyph that starts no comment. -/
theorem word_or_glyph_of_lexeme? {s w rest : Text} {k : Token.Kind}
    (h : lexeme? (splitLayout s).2 = some (k, w, rest)) :
    (Name.isWord w = true ∧ k = wordKind w) ∨
      ∃ g : Glyph, Glyph.all w = [g] ∧ w = g.bytes ∧ k = glyphKind g ∧ g.isBlank = false ∧
        g ≠ .char '#' := by
  rcases lexeme?_cases h with ⟨hword, hk, -⟩ | ⟨g, hg, rfl, hk, -⟩
  · exact Or.inl ⟨hword, hk⟩
  · obtain ⟨hblank, hhash⟩ := next?_splitLayout hg
    have hall := Glyph.all_eq_singleton_iff.2 (Glyph.next?_bytes_of_next? hg)
    exact Or.inr ⟨g, hall, rfl, hk, hblank, hhash⟩

theorem lexable_of_lexeme? {s w rest : Text}
    (h : lexeme? (splitLayout s).2 = some (.identifier, w, rest)) : Name.Lexable w := by
  rcases word_or_glyph_of_lexeme? h with ⟨hword, hk⟩ | ⟨g, hall, -, hk, hblank, hhash⟩
  · -- a word, and its kind says that it is no keyword
    refine Or.inl ⟨hword, fun hlet => ?_, fun hin => ?_⟩
    · rw [hlet] at hk
      exact absurd hk (by decide)
    · rw [hin] at hk
      exact absurd hk (by decide)
  · have hmark := (glyphKind_eq_identifier_iff hhash).1 hk.symm
    refine Or.inr ?_
    rw [hall, List.map_singleton, Glyph.isReserved, hblank, Bool.false_or, decide_eq_false hmark]

/-! ### Tokens -/

namespace Lexer

theorem tokens_of_lexeme? {l : Lexer} {k : Token.Kind} {w rest : Text}
    (h : lexeme? (splitLayout l.rest).2 = some (k, w, rest)) :
    l.tokens = ⟨k, w, l.pos + (splitLayout l.rest).1.length⟩ ::
      (⟨l.pos + (splitLayout l.rest).1.length + w.length, rest⟩ : Lexer).tokens := by
  have hnext : l.next = (⟨k, w, l.pos + (splitLayout l.rest).1.length⟩,
      ⟨l.pos + (splitLayout l.rest).1.length + w.length, rest⟩) := by
    simp only [next, h]
  rw [tokens, dif_neg]
  · rw [hnext]
  · rw [hnext]
    exact kind_ne_endOfInput_of_lexeme? h

theorem tokens_eq_nil {l : Lexer} (h : lexeme? (splitLayout l.rest).2 = none) : l.tokens = [] := by
  have hnext : l.next.1 = .atEnd (l.pos + (splitLayout l.rest).1.length) := by
    simp only [next, h]
  rw [tokens, dif_pos]
  rw [hnext]
  rfl

/-- Layout only moves what stands behind it. -/
theorem tokens_of_splitLayout (pos : Nat) {s v rest : Text}
    (h : splitLayout s = (v ++ (splitLayout rest).1, (splitLayout rest).2)) :
    (⟨pos, s⟩ : Lexer).tokens = (⟨pos + v.length, rest⟩ : Lexer).tokens := by
  cases hlex : lexeme? (splitLayout rest).2 with
  | none =>
    rw [tokens_eq_nil (l := ⟨pos, s⟩) (by rw [h]; exact hlex), tokens_eq_nil hlex]
  | some lexeme =>
    obtain ⟨k, w, rest'⟩ := lexeme
    rw [tokens_of_lexeme? (l := ⟨pos, s⟩) (by rw [h]; exact hlex),
      tokens_of_lexeme? (l := ⟨pos + v.length, rest⟩) hlex]
    simp only [h, List.length_append, Nat.add_assoc]

theorem tokens_glyph (pos : Nat) {s r w rest : Text} {g : Glyph} {k : Token.Kind}
    (h : Glyph.next? s = some (g, r)) (hg : g.isBlank = false) (hhash : g ≠ .char '#')
    (hlex : lexeme? s = some (k, w, rest)) :
    (⟨pos, s⟩ : Lexer).tokens = ⟨k, w, pos⟩ :: (⟨pos + w.length, rest⟩ : Lexer).tokens := by
  have hsplit := splitLayout_eq_self h hg hhash
  rw [tokens_of_lexeme? (l := ⟨pos, s⟩) (by rw [hsplit]; exact hlex)]
  simp only [hsplit, List.length_nil, Nat.add_zero]

@[simp] theorem tokens_nil (pos : Nat) : (⟨pos, []⟩ : Lexer).tokens = [] :=
  tokens_eq_nil (by rw [splitLayout_nil]; rfl)

theorem tokens_space (pos : Nat) (rest : Text) :
    (⟨pos, utf8 " " ++ rest⟩ : Lexer).tokens = (⟨pos + 1, rest⟩ : Lexer).tokens :=
  tokens_of_splitLayout pos
    (splitLayout_of_isBlank (Glyph.next?_utf8EncodeChar_append ' ' rest) (by decide))

/-- A mark is a token by itself. -/
theorem tokens_mark (c : Char) (pos : Nat) {w : Text} (hw : w = String.utf8EncodeChar c)
    (hc : c ∈ marks) (hhash : c ≠ '#') (rest : Text) :
    (⟨pos, w ++ rest⟩ : Lexer).tokens =
      ⟨glyphKind (.char c), w, pos⟩ :: (⟨pos + w.length, rest⟩ : Lexer).tokens := by
  have hmarks : ∀ c ∈ marks, isBlank c = false ∧
      (String.utf8EncodeChar c).head?.any isWordStart = false :=
    List.forall_iff_forall_mem.1 (by decide)
  have hnext := Glyph.next?_utf8EncodeChar_append c rest
  rw [hw]
  refine tokens_glyph pos hnext (hmarks c hc).1 (fun h => hhash (Glyph.char.inj h)) ?_
  refine lexeme?_glyph hnext ?_
  have hne : String.utf8EncodeChar c ≠ [] :=
    List.ne_nil_of_length_pos (Glyph.length_bytes_pos (.char c))
  rw [List.head?_append_of_ne_nil _ hne]
  exact (hmarks c hc).2

/-- A word is a token by itself where no further byte of a word follows. -/
theorem tokens_word (pos : Nat) {w rest : Text} (hw : Name.isWord w = true)
    (hrest : ∀ b ∈ rest.head?, isWordByte b = false) :
    (⟨pos, w ++ rest⟩ : Lexer).tokens =
      ⟨wordKind w, w, pos⟩ :: (⟨pos + w.length, rest⟩ : Lexer).tokens := by
  have hlex := lexeme?_word hw hrest
  cases w with
  | nil => exact absurd hw (by decide)
  | cons b w =>
    have hb : isWordStart b = true := (Bool.and_eq_true_iff.1 hw).1
    have hnext := Glyph.next?_ascii (lt_of_isWordByte (isWordByte_of_isWordStart hb)) (w ++ rest)
    obtain ⟨hblank, hhash⟩ := not_layout_of_isWordStart hb
    exact tokens_glyph pos hnext hblank hhash hlex

/-- A name is a token by itself where something separates it from what follows. -/
theorem tokens_name (pos : Nat) {x rest : Text} (hx : Name.Lexable x) (hrest : Separated rest) :
    (⟨pos, x ++ rest⟩ : Lexer).tokens =
      ⟨.identifier, x, pos⟩ :: (⟨pos + x.length, rest⟩ : Lexer).tokens := by
  cases x with
  | nil => exact absurd hx (by decide +kernel)
  | cons b x =>
    by_cases hb : isWordStart b = true
    · -- a word: it ends where the separator stands, and it is no keyword
      have hkind : wordKind (b :: x) = .identifier := by
        rw [wordKind, if_neg hx.ne_keyword.1, if_neg hx.ne_keyword.2]
      rw [tokens_word pos (hx.isWord hb) fun a ha => (separated_iff.1 hrest a ha).2, hkind]
    · -- a single glyph: a stray byte cannot grow into a character before ASCII
      obtain ⟨g, hall, hres⟩ := hx.glyph (by simpa using hb)
      rw [Glyph.isReserved, Bool.or_eq_false_iff, decide_eq_false_iff_not] at hres
      have hhash : g ≠ .char '#' := fun h => hres.2 (by rw [h]; decide)
      have hbytes : g.bytes = b :: x := by
        rw [← Glyph.bytes_append_of_next? (Glyph.all_eq_singleton_iff.1 hall), List.append_nil]
      have hnext : Glyph.next? (b :: x ++ rest) = some (g, rest) := by
        rw [← hbytes]
        refine Glyph.next?_bytes_append ?_ fun a ha => (separated_iff.1 hrest a ha).1
        rw [hbytes]
        exact Glyph.all_eq_singleton_iff.1 hall
      have hlex := lexeme?_glyph hnext (by simpa using hb)
      rw [(glyphKind_eq_identifier_iff hhash).2 hres.2, hbytes] at hlex
      exact tokens_glyph pos hnext hres.1 hhash hlex

theorem kind_ne_endOfInput_of_mem_tokens {l : Lexer} {tok : Token} (h : tok ∈ l.tokens) :
    tok.kind ≠ .endOfInput := by
  fun_induction tokens l with
  | case1 l hend => simp at h
  | case2 l hend ih =>
    rcases List.mem_cons.1 h with rfl | h
    · exact hend
    · exact ih h

theorem lexable_of_mem_tokens {l : Lexer} {tok : Token} (h : tok ∈ l.tokens)
    (hk : tok.kind = .identifier) : Name.Lexable tok.text := by
  fun_induction tokens l with
  | case1 l hend => simp at h
  | case2 l hend ih =>
    rcases List.mem_cons.1 h with rfl | h
    · unfold next at hk ⊢
      simp only at hk ⊢
      split at hk
      · exact absurd hk (by simp [Token.atEnd])
      · next k w rest hlex =>
        simp only at hk
        rw [hk] at hlex
        exact lexable_of_lexeme? hlex
    · exact ih h

/-- A text is a single identifier, from its first byte to its last, exactly if it is a lexable name. -/
theorem tokens_eq_identifier_iff {x : Text} :
    (ofText x).tokens = [⟨.identifier, x, 0⟩] ↔ Name.Lexable x := by
  constructor
  · intro h
    have hmem : (⟨.identifier, x, 0⟩ : Token) ∈ (ofText x).tokens := by rw [h, List.mem_singleton]
    exact lexable_of_mem_tokens hmem rfl
  · intro hx
    have h := tokens_name 0 hx separated_nil
    rwa [List.append_nil, tokens_nil] at h

end Lexer

end CallByValue
