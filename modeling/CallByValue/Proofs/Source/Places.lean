import CallByValue.Proofs.Source.Tokens

/-!
# The places of tokens

The lexer cuts a source into layout and tokens and loses nothing of it.  So every token stands in the
source at its offset (`text_prefix_drop_of_mem`), and the offsets increase from token to token, up to the
end of the source (`pairwise_pos_sourceTokens`).

Apart from its place, a token is a kind with a text (`Token.word`).  The words of a source can be written
down again, with a space behind each, and are read back as the same words
(`Lexer.map_word_tokens_spaced`, `Lexer.writable_of_mem_tokens`).
-/

namespace CallByValue

/-- A token without its place. -/
def Token.word (tok : Token) : Token.Kind × Text := (tok.kind, tok.text)

/-- The tokens of a source, with the end as the last one. -/
def sourceTokens (s : Text) : List Token := (Lexer.ofText s).tokens ++ [.atEnd s.length]

/-! ### Nothing is lost -/

theorem splitLayout_append (s : Text) : (splitLayout s).1 ++ (splitLayout s).2 = s := by
  fun_induction splitLayout s with
  | case1 => rfl
  | case2 s g rest h _ ih =>
    rw [Prod.map_fst, Prod.map_snd, id, List.append_assoc, ih, Glyph.bytes_append_of_next? h]
  | case3 s rest h _ ih =>
    rw [Prod.map_fst, Prod.map_snd, id, List.append_assoc, List.append_assoc, ih,
      List.takeWhile_append_dropWhile, Glyph.bytes_append_of_next? h]
  | case4 => rfl

theorem append_of_lexeme? {s w rest : Text} {k : Token.Kind}
    (h : lexeme? s = some (k, w, rest)) : w ++ rest = s := by
  unfold lexeme? at h
  split at h
  · simp at h
  · split at h
    · simp only [Option.some.injEq, Prod.mk.injEq] at h
      obtain ⟨-, rfl, rfl⟩ := h
      exact List.takeWhile_append_dropWhile
    · simp only [Option.map_eq_some_iff, Prod.mk.injEq] at h
      obtain ⟨⟨g, r⟩, hg, -, rfl, rfl⟩ := h
      exact Glyph.bytes_append_of_next? hg

theorem lexeme?_eq_none {s : Text} (h : lexeme? s = none) : s = [] := by
  cases s with
  | nil => rfl
  | cons b s =>
    simp only [lexeme?] at h
    split at h
    · simp at h
    · cases hlead : Glyph.leading? (b :: s) <;> simp [Glyph.next?, hlead] at h

namespace Lexer

/-- The place lies in the source: what is left is what stands behind its offset. -/
def On (s : Text) (l : Lexer) : Prop := ∃ before, s = before ++ l.rest ∧ l.pos = before.length

variable {s : Text} {l : Lexer} {tok : Token}

theorem on_ofText (s : Text) : (ofText s).On s := ⟨[], rfl, rfl⟩

/-- Before the next token there is only layout, and behind it the next place. -/
theorem exists_layout (l : Lexer) : ∃ layout, l.rest = layout ++ (l.next.1.text ++ l.next.2.rest) ∧
    l.next.1.pos = l.pos + layout.length ∧
    l.next.2.pos = l.next.1.pos + l.next.1.text.length := by
  refine ⟨(splitLayout l.rest).1, ?_⟩
  have hsplit := splitLayout_append l.rest
  cases hlex : lexeme? (splitLayout l.rest).2 with
  | none =>
    simp only [next, hlex, Token.atEnd, List.nil_append, List.length_nil, Nat.add_zero, and_true]
    exact hsplit.symm
  | some lexeme =>
    obtain ⟨k, w, rest⟩ := lexeme
    simp only [next, hlex, append_of_lexeme? hlex, and_true]
    exact hsplit.symm

theorem exists_lexeme (h : l.next.1.kind ≠ .endOfInput) :
    ∃ rest, lexeme? (splitLayout l.rest).2 = some (l.next.1.kind, l.next.1.text, rest) := by
  cases hlex : lexeme? (splitLayout l.rest).2 with
  | none =>
    simp only [next, hlex, Token.atEnd] at h
    exact absurd rfl h
  | some lexeme =>
    obtain ⟨k, w, rest⟩ := lexeme
    simp only [next, hlex]
    exact ⟨rest, rfl⟩

theorem lexeme?_eq_none_of_kind (h : l.next.1.kind = .endOfInput) :
    lexeme? (splitLayout l.rest).2 = none := by
  cases hlex : lexeme? (splitLayout l.rest).2 with
  | none => rfl
  | some lexeme =>
    obtain ⟨k, w, rest⟩ := lexeme
    simp only [next, hlex] at h
    exact absurd h (kind_ne_endOfInput_of_lexeme? hlex)

theorem text_next_ne_nil (h : l.next.1.kind ≠ .endOfInput) : l.next.1.text ≠ [] := by
  obtain ⟨rest, hlex⟩ := exists_lexeme h
  have hlt := length_lt_of_lexeme? hlex
  rw [← append_of_lexeme? hlex, List.length_append] at hlt
  exact List.ne_nil_of_length_pos (by omega)

theorem On.next (h : l.On s) : l.next.2.On s := by
  obtain ⟨before, hs, hpos⟩ := h
  obtain ⟨layout, hrest, htok, hnext⟩ := l.exists_layout
  refine ⟨before ++ (layout ++ l.next.1.text), ?_, ?_⟩
  · rw [hs, hrest, List.append_assoc, List.append_assoc]
  · rw [hnext, htok, hpos]
    simp only [List.length_append]
    omega

/-- Where no token is left, the end is read and the lexer stands there. -/
theorem On.next_eq_of_kind (h : l.On s) (hend : l.next.1.kind = .endOfInput) :
    l.next = (.atEnd s.length, ⟨s.length, []⟩) := by
  obtain ⟨before, rfl, hpos⟩ := h
  have hnil := lexeme?_eq_none (lexeme?_eq_none_of_kind hend)
  have hlayout := splitLayout_append l.rest
  rw [hnil, List.append_nil] at hlayout
  simp only [Lexer.next, hnil, hlayout, hpos, List.length_append]
  rfl

theorem On.tokens_next (h : l.On s) : l.next.2.tokens = l.tokens.tail := by
  by_cases hend : l.next.1.kind = .endOfInput
  · rw [h.next_eq_of_kind hend, tokens_nil, tokens, dif_pos hend]
    rfl
  · conv_rhs => rw [tokens, dif_neg hend]
    rfl

/-- The next token is the first of those ahead, or the end if there is none. -/
theorem On.next_fst (h : l.On s) : l.next.1 = l.tokens.headD (.atEnd s.length) := by
  rw [tokens]
  split
  · next hend => rw [h.next_eq_of_kind hend, List.headD_nil]
  · rfl

theorem On.text_next (h : l.On s) : l.next.1.text <+: s.drop l.next.1.pos := by
  obtain ⟨before, hs, hpos⟩ := h
  obtain ⟨layout, hrest, htok, -⟩ := l.exists_layout
  rw [hs, hrest, htok, hpos, ← List.append_assoc, ← List.length_append, List.drop_left]
  exact List.prefix_append _ _

/-- Every token takes a byte at least. -/
theorem length_tokens_le (l : Lexer) : l.tokens.length ≤ l.rest.length := by
  fun_induction tokens l with
  | case1 l hend => exact Nat.zero_le _
  | case2 l hend ih =>
    have hlt := rest_next_lt hend
    rw [List.length_cons]
    omega

theorem On.of_mem_tokens (h : l.On s) (htok : tok ∈ l.tokens) :
    l.pos ≤ tok.pos ∧ tok.pos < s.length ∧ tok.text <+: s.drop tok.pos := by
  fun_induction tokens l with
  | case1 l hend => simp at htok
  | case2 l hend ih =>
    obtain ⟨layout, -, hpos, hnext⟩ := l.exists_layout
    rcases List.mem_cons.1 htok with rfl | htok
    · -- the text of the token is not empty and fits in, so it starts before the end
      have hlen := h.text_next.length_le
      have hne := List.length_pos_iff.2 (text_next_ne_nil hend)
      rw [List.length_drop] at hlen
      exact ⟨by omega, by omega, h.text_next⟩
    · obtain ⟨hle, hlt, htext⟩ := ih h.next htok
      exact ⟨by omega, hlt, htext⟩

theorem On.pairwise_pos_tokens (h : l.On s) : l.tokens.Pairwise fun a b => a.pos < b.pos := by
  fun_induction tokens l with
  | case1 l hend => exact .nil
  | case2 l hend ih =>
    obtain ⟨layout, -, -, hnext⟩ := l.exists_layout
    refine .cons (fun tok htok => ?_) (ih h.next)
    -- later tokens stand behind the place that this one leaves, and it takes at least one byte
    have hle := (h.next.of_mem_tokens htok).1
    have hne := List.length_pos_iff.2 (text_next_ne_nil hend)
    omega

end Lexer

/-! ### The tokens of a source -/

section Source

variable {s : Text} {tok : Token} {pre rest : List Token}

theorem pos_le_of_mem (h : tok ∈ sourceTokens s) : tok.pos ≤ s.length := by
  rcases List.mem_append.1 h with h | h
  · exact ((Lexer.on_ofText s).of_mem_tokens h).2.1.le
  · rw [List.mem_singleton.1 h]
    exact Nat.le_refl _

theorem mem_tokens_of_pos_lt (h : tok ∈ sourceTokens s) (hpos : tok.pos < s.length) :
    tok ∈ (Lexer.ofText s).tokens := by
  rcases List.mem_append.1 h with h | h
  · exact h
  · rw [List.mem_singleton.1 h] at hpos
    exact absurd hpos (Nat.lt_irrefl _)

/-- A token stands in the source at its offset. -/
theorem text_prefix_drop_of_mem (h : tok ∈ sourceTokens s) : tok.text <+: s.drop tok.pos := by
  rcases List.mem_append.1 h with h | h
  · exact ((Lexer.on_ofText s).of_mem_tokens h).2.2
  · rw [List.mem_singleton.1 h]
    exact List.nil_prefix

theorem pairwise_pos_sourceTokens (s : Text) :
    (sourceTokens s).Pairwise fun a b => a.pos < b.pos := by
  rw [sourceTokens, List.pairwise_append]
  refine ⟨(Lexer.on_ofText s).pairwise_pos_tokens, List.pairwise_singleton _ _, ?_⟩
  intro a ha b hb
  rw [List.mem_singleton.1 hb]
  exact ((Lexer.on_ofText s).of_mem_tokens ha).2.1

theorem filter_append_eq_left {p : Token → Bool} (hpre : ∀ a ∈ pre, p a = true)
    (hrest : ∀ a ∈ rest, ¬ p a = true) : (pre ++ rest).filter p = pre := by
  rw [List.filter_append, List.filter_eq_self.2 hpre, List.filter_eq_nil_iff.2 hrest,
    List.append_nil]

/-- The tokens before a token are those at smaller offsets. -/
theorem filter_pos_lt (h : (pre ++ tok :: rest).Pairwise fun a b => a.pos < b.pos) :
    (pre ++ tok :: rest).filter (·.pos < tok.pos) = pre := by
  obtain ⟨-, hrest, hpre⟩ := List.pairwise_append.1 h
  refine filter_append_eq_left (fun a ha => ?_) fun a ha => ?_
  · exact decide_eq_true (hpre a ha tok List.mem_cons_self)
  · rw [decide_eq_true_eq]
    rcases List.mem_cons.1 ha with rfl | ha
    · exact Nat.lt_irrefl _
    · exact (List.rel_of_pairwise_cons hrest ha).le.not_gt

/-- The tokens up to a token are those at no greater offsets. -/
theorem filter_pos_le (h : (pre ++ tok :: rest).Pairwise fun a b => a.pos < b.pos) :
    (pre ++ tok :: rest).filter (·.pos ≤ tok.pos) = pre ++ [tok] := by
  obtain ⟨-, hrest, hpre⟩ := List.pairwise_append.1 h
  rw [List.append_cons]
  refine filter_append_eq_left (fun a ha => ?_) fun a ha => ?_
  · rw [decide_eq_true_eq]
    rcases List.mem_append.1 ha with ha | ha
    · exact (hpre a ha tok List.mem_cons_self).le
    · exact (congrArg Token.pos (List.mem_singleton.1 ha)).le
  · rw [decide_eq_true_eq]
    exact (List.rel_of_pairwise_cons hrest ha).not_ge

end Source

/-! ### Writing words down again -/

namespace Lexer

/-- A word that is read as one token where something separates it from what follows. -/
def Writable (w : Token.Kind × Text) : Prop :=
  ∀ pos rest, Separated rest → (⟨pos, w.2 ++ rest⟩ : Lexer).tokens =
    ⟨w.1, w.2, pos⟩ :: (⟨pos + w.2.length, rest⟩ : Lexer).tokens

/-- The text that spells words, with a space behind each. -/
def spaced (ws : List (Token.Kind × Text)) : Text := ws.flatMap fun w => w.2 ++ utf8 " "

theorem map_word_tokens_spaced {ws : List (Token.Kind × Text)} (h : ∀ w ∈ ws, Writable w)
    (pos : Nat) : (⟨pos, spaced ws⟩ : Lexer).tokens.map Token.word = ws := by
  induction ws generalizing pos with
  | nil =>
    rw [spaced, List.flatMap_nil, tokens_nil]
    rfl
  | cons w ws ih =>
    obtain ⟨hw, hws⟩ := List.forall_mem_cons.1 h
    have hsep : Separated (utf8 " " ++ spaced ws) :=
      separated_append (by decide) (by decide) _
    have hcons : spaced (w :: ws) = w.2 ++ (utf8 " " ++ spaced ws) := by
      rw [spaced, List.flatMap_cons, List.append_assoc]
      rfl
    rw [hcons, hw pos _ hsep, tokens_space, List.map_cons, ih hws]
    rfl

theorem writable_name {x : Name} (hx : x.Lexable) : Writable (.identifier, x) :=
  fun pos _ hrest => tokens_name pos hx hrest

theorem writable_word {w : Text} (hw : Name.isWord w = true) : Writable (wordKind w, w) :=
  fun pos _ hrest => tokens_word pos hw fun a ha => (separated_iff.1 hrest a ha).2

theorem writable_mark {c : Char} (hc : c ∈ marks) (hhash : c ≠ '#') :
    Writable (glyphKind (.char c), String.utf8EncodeChar c) :=
  fun pos rest _ => tokens_mark c pos rfl hc hhash rest

theorem writable_of_lexeme? {s w rest : Text} {k : Token.Kind}
    (h : lexeme? (splitLayout s).2 = some (k, w, rest)) : Writable (k, w) := by
  by_cases hk : k = .identifier
  · rw [hk] at h ⊢
    exact writable_name (lexable_of_lexeme? h)
  · rcases word_or_glyph_of_lexeme? h with ⟨hword, rfl⟩ | ⟨g, -, rfl, rfl, -, hhash⟩
    · exact writable_word hword
    · -- a glyph that is no identifier is a mark
      have hmark : g ∈ marks.map Glyph.char := by
        simpa using mt (glyphKind_eq_identifier_iff hhash).2 hk
      obtain ⟨c, hc, rfl⟩ := List.mem_map.1 hmark
      exact writable_mark hc fun he => hhash (congrArg Glyph.char he)

theorem writable_of_mem_tokens {l : Lexer} {tok : Token} (h : tok ∈ l.tokens) :
    Writable tok.word := by
  fun_induction tokens l with
  | case1 l hend => simp at h
  | case2 l hend ih =>
    rcases List.mem_cons.1 h with rfl | h
    · obtain ⟨rest, hlex⟩ := exists_lexeme hend
      exact writable_of_lexeme? hlex
    · exact ih h

end Lexer

end CallByValue
