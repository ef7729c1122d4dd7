import CallByValue.Proofs.Source.Viable
import Mathlib.Data.List.TakeWhile

/-!
# Layout does not matter

White space and complete comments can be put in before and behind any token of a source, and its tokens
stay what they are: only those behind the place move.

The places are found in the order in which the lexer comes to them (`Divides`), and each kind of place
is one case of the proof.  What is put in there begins with the first byte of a character, and that byte
is part of no word (`IsLayout.head`); so it neither prolongs a word nor completes a character that a
stray byte before it seems to start.  What stands behind the place is found again, because the layout
before a token is complete (`isLayout_splitLayout`).  Only at the end of a source a comment may be open,
and it swallows what is put in there up to the next line break (`IsLayout.splitLayout_append`).

**Main theorem** (`Term.parse_layout_inserted`): the words of a source stay the same, and so does the
result of parsing it, except that the offset of an error moves with the token that it is about.
-/

namespace CallByValue

/-- White space and complete comments, in any number and order. -/
inductive IsLayout : Text → Prop where
  /-- Nothing. -/
  | nil : IsLayout []
  /-- A white-space character. -/
  | blank {c : Char} {w : Text} : isBlank c = true → IsLayout w →
      IsLayout (String.utf8EncodeChar c ++ w)
  /-- A comment and the line break that ends it. -/
  | comment {body w : Text} : Text.newline ∉ body → IsLayout w →
      IsLayout (utf8 "#" ++ (body ++ Text.newline :: w))

/-! ### The bytes of layout -/

theorem isBlank_of_isWordByte {b : UInt8} (h : isWordByte b = true) :
    isBlank (Char.ofUInt8 b) = false := by
  have hn : (Char.ofUInt8 b).toNat = b.toNat := UInt8.toNat_toUInt32 b
  simp only [isWordByte, isWordStart, isDigit, Bool.or_eq_true, Bool.and_eq_true, decide_eq_true_eq,
    beq_iff_eq, UInt8.le_iff_toNat_le, ← UInt8.toNat_inj, UInt8.reduceToNat] at h
  simp only [isBlank, hn, Bool.or_eq_false_iff, Bool.and_eq_false_iff, decide_eq_false_iff_not,
    beq_eq_false_iff_ne]
  omega

/-- A byte of white space is part of no word. -/
theorem isWordByte_of_isBlank {c : Char} (hc : isBlank c = true) {b : UInt8}
    (hb : b ∈ String.utf8EncodeChar c) : isWordByte b = false := by
  by_contra hnot
  have hword : isWordByte b = true := by simpa using hnot
  -- the bytes of words are ASCII, so it would be the whole character
  rw [Glyph.eq_ofUInt8_of_mem (lt_of_isWordByte hword) hb, isBlank_of_isWordByte hword] at hc
  exact absurd hc (by simp)

/-- A line break is a character by itself. -/
theorem utf8EncodeChar_of_newline_mem {c : Char} (h : Text.newline ∈ String.utf8EncodeChar c) :
    String.utf8EncodeChar c = [Text.newline] := by
  rw [Glyph.eq_ofUInt8_of_mem (by decide) h]
  exact Glyph.utf8EncodeChar_ofUInt8 (by decide)

theorem dropWhile_of_newline_notMem {body : Text} (hbody : Text.newline ∉ body) (rest : Text) :
    (body ++ rest).dropWhile (· != Text.newline) = rest.dropWhile (· != Text.newline) := by
  refine List.dropWhile_append_of_pos fun b hb => ?_
  rw [bne_iff_ne]
  rintro rfl
  exact hbody hb

theorem takeWhile_comment {body : Text} (hbody : Text.newline ∉ body) (rest : Text) :
    (body ++ Text.newline :: rest).takeWhile (· != Text.newline) = body := by
  rw [List.takeWhile_append_of_pos, List.takeWhile_cons_of_neg (by simp), List.append_nil]
  intro b hb
  rw [bne_iff_ne]
  rintro rfl
  exact hbody hb

theorem dropWhile_newline_cons (rest : Text) :
    (Text.newline :: rest).dropWhile (· != Text.newline) = Text.newline :: rest :=
  List.dropWhile_cons_of_neg (by simp)

theorem splitLayout_newline_cons (rest : Text) : splitLayout (Text.newline :: rest) =
    (Text.newline :: (splitLayout rest).1, (splitLayout rest).2) :=
  splitLayout_of_isBlank (Glyph.next?_utf8EncodeChar_append '\n' rest) (by decide)

theorem splitLayout_hash (s : Text) : splitLayout (utf8 "#" ++ s) =
    (utf8 "#" ++ s.takeWhile (· != Text.newline) ++
      (splitLayout (s.dropWhile (· != Text.newline))).1,
      (splitLayout (s.dropWhile (· != Text.newline))).2) := by
  have hnext : Glyph.next? (utf8 "#" ++ s) = some (.char '#', s) :=
    Glyph.next?_utf8EncodeChar_append '#' s
  rw [splitLayout_of_next? hnext, if_neg (by decide), if_pos rfl]
  rfl

namespace IsLayout

variable {v w rest : Text}

theorem newline_cons (hw : IsLayout w) : IsLayout (Text.newline :: w) :=
  .blank (c := '\n') (by decide) hw

theorem of_newline_cons (h : IsLayout (Text.newline :: w)) : IsLayout w := by
  generalize hv : Text.newline :: w = v at h
  cases h with
  | nil => simp at hv
  | @blank c w' hc hw' =>
    have hpos := Glyph.length_bytes_pos (.char c)
    obtain ⟨a, bytes, hbytes⟩ := List.exists_cons_of_length_pos hpos
    rw [show String.utf8EncodeChar c = a :: bytes from hbytes, List.cons_append, List.cons.injEq] at hv
    -- the first byte is a line break, so it is the whole character
    have hnewline := utf8EncodeChar_of_newline_mem (c := c)
    rw [show String.utf8EncodeChar c = a :: bytes from hbytes, hv.1] at hnewline
    obtain ⟨-, rfl⟩ := List.cons.inj (hnewline List.mem_cons_self)
    rw [hv.2, List.nil_append]
    exact hw'
  | comment =>
    exact absurd (List.cons.inj hv).1 (by decide)

theorem append (hv : IsLayout v) (hw : IsLayout w) : IsLayout (v ++ w) := by
  induction hv with
  | nil => exact hw
  | blank hc _ ih =>
    rw [List.append_assoc]
    exact .blank hc ih
  | comment hbody _ ih =>
    rw [List.append_assoc, List.append_assoc, List.cons_append]
    exact .comment hbody ih

/-- Layout begins like a character and unlike the rest of a word. -/
theorem head (hw : IsLayout w) : ∀ b ∈ w.head?, b.IsUTF8FirstByte ∧ isWordByte b = false := by
  intro b hb
  cases hw with
  | nil => simp at hb
  | @blank c w hc _ =>
    have hpos : 0 < (String.utf8EncodeChar c).length := Glyph.length_bytes_pos (.char c)
    have hfirst : (String.utf8EncodeChar c)[0].IsUTF8FirstByte :=
      UInt8.isUTF8FirstByte_getElem_utf8EncodeChar.2 rfl
    have hget : (String.utf8EncodeChar c)[0] = b := by
      rw [List.head?_append_of_ne_nil _ (List.ne_nil_of_length_pos hpos), List.head?_eq_getElem?,
        List.getElem?_eq_getElem hpos] at hb
      exact Option.some.inj hb
    rw [hget] at hfirst
    exact ⟨hfirst, isWordByte_of_isBlank hc (hget ▸ List.getElem_mem hpos)⟩
  | comment =>
    obtain rfl : 0x23 = b := Option.some.inj hb
    exact ⟨Glyph.isUTF8FirstByte_of_ascii (by decide), by decide⟩

/-! ### Layout in front of a text and at its end -/

/-- Layout is skipped whatever follows it. -/
theorem splitLayout_prepend (hw : IsLayout w) (rest : Text) :
    splitLayout (w ++ rest) = (w ++ (splitLayout rest).1, (splitLayout rest).2) := by
  induction hw with
  | nil => rfl
  | @blank c w hc _ ih =>
    rw [List.append_assoc,
      splitLayout_of_isBlank (Glyph.next?_utf8EncodeChar_append c (w ++ rest)) hc, ih,
      List.append_assoc]
    rfl
  | @comment body w hbody _ ih =>
    -- the comment is cut before its line break, which is white space and skipped as such
    rw [List.append_assoc, List.append_assoc, List.cons_append, splitLayout_hash,
      takeWhile_comment hbody, dropWhile_of_newline_notMem hbody, dropWhile_newline_cons,
      splitLayout_newline_cons, ih]
    simp only [List.append_assoc, List.cons_append]

/-- What is left of layout from its first line break on is layout. -/
theorem dropWhile (hw : IsLayout w) : IsLayout (w.dropWhile (· != Text.newline)) := by
  induction hw with
  | nil => exact .nil
  | @blank c w hc hw ih =>
    -- a line break inside a character would be all of it
    by_cases hmem : Text.newline ∈ String.utf8EncodeChar c
    · rw [utf8EncodeChar_of_newline_mem hmem, List.singleton_append, dropWhile_newline_cons]
      exact hw.newline_cons
    · rw [dropWhile_of_newline_notMem hmem]
      exact ih
  | @comment body w hbody hw _ =>
    rw [dropWhile_of_newline_notMem (by decide), dropWhile_of_newline_notMem hbody,
      dropWhile_newline_cons]
    exact hw.newline_cons

theorem splitLayout_snd (hw : IsLayout w) : (splitLayout w).2 = [] := by
  have hsplit := hw.splitLayout_prepend []
  rw [List.append_nil, splitLayout_nil] at hsplit
  rw [hsplit]

/-- A text without tokens stays one, also where it ends in a comment that is open. -/
theorem splitLayout_append (hw : IsLayout w) {s : Text} (h : (splitLayout s).2 = []) :
    (splitLayout (s ++ w)).2 = [] := by
  fun_induction splitLayout s with
  | case1 s hnone =>
    rw [show s = [] from h, List.nil_append]
    exact hw.splitLayout_snd
  | case2 s g rest hnext hblank ih =>
    cases g with
    | stray b => simp [Glyph.isBlank] at hblank
    | char c =>
      rw [← Glyph.bytes_append_of_next? hnext, List.append_assoc, Glyph.bytes,
        splitLayout_of_isBlank (Glyph.next?_utf8EncodeChar_append c (rest ++ w)) hblank]
      exact ih h
  | case3 s rest hnext _ ih =>
    rw [← Glyph.bytes_append_of_next? hnext, List.append_assoc]
    show (splitLayout (utf8 "#" ++ (rest ++ w))).2 = []
    rw [splitLayout_hash, List.dropWhile_append]
    -- either the comment is open and takes in the layout up to a line break, or it has ended before
    split
    · exact hw.dropWhile.splitLayout_snd
    · exact ih h
  | case4 s g rest hnext _ _ =>
    rw [show s = [] from h] at hnext
    simp [Glyph.next?] at hnext

end IsLayout

/-- The layout before a token is complete: a comment that is open would reach to the end. -/
theorem isLayout_splitLayout {s : Text} (h : (splitLayout s).2 ≠ []) : IsLayout (splitLayout s).1 := by
  fun_induction splitLayout s with
  | case1 => exact .nil
  | case2 s g rest _ hblank ih =>
    cases g with
    | stray b => simp [Glyph.isBlank] at hblank
    | char c => exact .blank hblank (ih h)
  | case3 s rest hnext _ ih =>
    have hlayout := ih h
    cases hrest : rest.dropWhile (· != Text.newline) with
    | nil =>
      rw [hrest, splitLayout_nil] at h
      exact absurd rfl h
    | cons b rest' =>
      have hb : b = Text.newline := by
        have hstop := List.head?_dropWhile_not (· != Text.newline) rest
        rw [hrest] at hstop
        simpa using hstop
      rw [hrest, hb, splitLayout_newline_cons] at hlayout
      -- something follows the comment, and that begins with the line break that ends it
      have hbody : Text.newline ∉ rest.takeWhile (· != Text.newline) := by
        intro hmem
        simpa using List.mem_takeWhile_imp hmem
      rw [hb, splitLayout_newline_cons]
      show IsLayout (utf8 "#" ++ rest.takeWhile (· != Text.newline) ++
        Text.newline :: (splitLayout rest').1)
      rw [List.append_assoc]
      exact .comment hbody hlayout.of_newline_cons
  | case4 => exact .nil

theorem isLayout_of_lexeme? {s w rest : Text} {k : Token.Kind}
    (h : lexeme? (splitLayout s).2 = some (k, w, rest)) : IsLayout (splitLayout s).1 := by
  refine isLayout_splitLayout fun hnil => ?_
  rw [hnil] at h
  simp [lexeme?] at h

/-! ### Places

The lexer comes to a place before each token and to one behind it. -/

/-- The text `s` is `a ++ b`, divided at its start, before or behind one of its tokens, or at its end. -/
inductive Divides : Text → Text → Text → Prop where
  /-- At the start. -/
  | start (s : Text) : Divides s [] s
  /-- Before the first token. -/
  | before {s w rest : Text} {k : Token.Kind} : lexeme? (splitLayout s).2 = some (k, w, rest) →
      Divides s (splitLayout s).1 (splitLayout s).2
  /-- Behind the first token. -/
  | behind {s w rest a b : Text} {k : Token.Kind} : lexeme? (splitLayout s).2 = some (k, w, rest) →
      Divides rest a b → Divides s ((splitLayout s).1 ++ (w ++ a)) b
  /-- At the end, where no token is left. -/
  | atEnd {s : Text} : lexeme? (splitLayout s).2 = none → Divides s s []

theorem Divides.append {s a b : Text} (h : Divides s a b) : a ++ b = s := by
  induction h with
  | start s => rfl
  | before _ => exact splitLayout_append _
  | behind hlex _ ih =>
    rw [List.append_assoc, List.append_assoc, ih, append_of_lexeme? hlex]
    exact splitLayout_append _
  | atEnd => exact List.append_nil _

namespace Lexer

/-- Induction along the tokens of a text. -/
@[elab_as_elim]
theorem text_induction {motive : Text → Prop}
    (last : ∀ s, lexeme? (splitLayout s).2 = none → motive s)
    (token : ∀ s k w rest, lexeme? (splitLayout s).2 = some (k, w, rest) → motive rest → motive s)
    (s : Text) : motive s := by
  induction hn : s.length using Nat.strong_induction_on generalizing s with
  | _ n ih =>
    cases hlex : lexeme? (splitLayout s).2 with
    | none => exact last s hlex
    | some lexeme =>
      obtain ⟨k, w, rest⟩ := lexeme
      have hlt := length_lt_of_lexeme? hlex
      have hle := length_splitLayout_le s
      exact token s k w rest hlex (ih rest.length (by omega) rest rfl)

variable {s a b w : Text} {tok : Token}

/-- Each token has a place before it and one behind it. -/
theorem exists_divides (pos : Nat) (h : tok ∈ (⟨pos, s⟩ : Lexer).tokens) :
    (∃ a b, Divides s a b ∧ pos + a.length = tok.pos) ∧
      ∃ a b, Divides s a b ∧ pos + a.length = tok.pos + tok.text.length := by
  induction s using text_induction generalizing pos with
  | last s hlex =>
    rw [tokens_eq_nil hlex] at h
    simp at h
  | token s k x rest hlex ih =>
    rw [tokens_of_lexeme? hlex] at h
    rcases List.mem_cons.1 h with rfl | h
    · refine ⟨⟨_, _, .before hlex, rfl⟩, _, _, .behind hlex (.start rest), ?_⟩
      simp only [List.append_nil, List.length_append, Nat.add_assoc]
    · obtain ⟨⟨a, b, hab, hpos⟩, a', b', hab', hend⟩ := ih _ h
      refine ⟨⟨_, _, .behind hlex hab, ?_⟩, _, _, .behind hlex hab', ?_⟩
      · simp only [List.length_append] at hpos ⊢
        omega
      · simp only [List.length_append] at hend ⊢
        omega

theorem divides_end (s : Text) : Divides s s [] := by
  induction s using text_induction with
  | last s hlex => exact .atEnd hlex
  | token s k x rest hlex ih =>
    have hs : (splitLayout s).1 ++ (x ++ rest) = s := by
      rw [append_of_lexeme? hlex]
      exact splitLayout_append s
    have hdiv := Divides.behind hlex ih
    rwa [hs] at hdiv

theorem tokens_skip (pos : Nat) (hw : IsLayout w) (rest : Text) :
    (⟨pos, w ++ rest⟩ : Lexer).tokens = (⟨pos + w.length, rest⟩ : Lexer).tokens :=
  tokens_of_splitLayout pos (hw.splitLayout_prepend rest)

end Lexer

/-! ### Tokens that move -/

namespace Token

/-- The token `n` bytes later. -/
def later (n : Nat) (tok : Token) : Token := { tok with pos := tok.pos + n }

/-- The token in a text into which `n` bytes have been put at the offset `p`. -/
def moved (p n : Nat) (tok : Token) : Token := if tok.pos < p then tok else tok.later n

variable {p : Nat} {tok : Token}

theorem word_moved (p n : Nat) (tok : Token) : (tok.moved p n).word = tok.word := by
  unfold moved
  split <;> rfl

theorem describe_moved (p n : Nat) (tok : Token) : (tok.moved p n).describe = tok.describe := by
  unfold moved
  split <;> rfl

theorem pos_moved (p n : Nat) (tok : Token) :
    (tok.moved p n).pos = if tok.pos < p then tok.pos else tok.pos + n := by
  unfold moved
  split <;> rfl

theorem moved_of_lt (h : tok.pos < p) (n : Nat) : tok.moved p n = tok := if_pos h

theorem moved_of_le (h : p ≤ tok.pos) (n : Nat) : tok.moved p n = tok.later n :=
  if_neg (Nat.not_lt.2 h)

end Token

namespace Lexer

variable {s u a b w x rest : Text} {k : Token.Kind} {tok : Token}

/-- The lexer does not see where a text starts. -/
theorem tokens_later (pos n : Nat) (s : Text) :
    (⟨pos + n, s⟩ : Lexer).tokens = (⟨pos, s⟩ : Lexer).tokens.map (Token.later n) := by
  induction s using text_induction generalizing pos with
  | last s hlex =>
    rw [tokens_eq_nil (l := ⟨pos + n, s⟩) hlex, tokens_eq_nil (l := ⟨pos, s⟩) hlex, List.map_nil]
  | token s k x rest hlex ih =>
    rw [tokens_of_lexeme? (l := ⟨pos + n, s⟩) hlex, tokens_of_lexeme? (l := ⟨pos, s⟩) hlex,
      List.map_cons, ← ih]
    simp only [Token.later, Nat.add_right_comm]

theorem le_pos_of_mem {pos : Nat} (h : tok ∈ (⟨pos, s⟩ : Lexer).tokens) : pos ≤ tok.pos := by
  rw [← Nat.zero_add pos, tokens_later] at h
  obtain ⟨tok', -, rfl⟩ := List.mem_map.1 h
  exact Nat.le_add_left pos tok'.pos

/-! ### Tokens around a place -/

/-- What is put in front of a text moves all its tokens. -/
theorem tokens_layout (pos : Nat) (hw : IsLayout w) (rest : Text) :
    (⟨pos, w ++ rest⟩ : Lexer).tokens =
      (⟨pos, rest⟩ : Lexer).tokens.map (Token.moved pos w.length) := by
  rw [tokens_skip pos hw, tokens_later]
  exact List.map_congr_left fun tok htok => (Token.moved_of_le (le_pos_of_mem htok) _).symm

/-- A token is read as before if something is put in behind it, right there or later on. -/
theorem tokens_insert (pos : Nat) (hlex : lexeme? (splitLayout s).2 = some (k, x, u ++ rest))
    (hw : IsLayout w) :
    (⟨pos, x ++ (u ++ (w ++ rest))⟩ : Lexer).tokens =
      ⟨k, x, pos⟩ :: (⟨pos + x.length, u ++ (w ++ rest)⟩ : Lexer).tokens := by
  have hhead := hw.head
  rcases lexeme?_cases hlex with ⟨hword, rfl, hstop⟩ | ⟨g, hnext, rfl, rfl, hstart⟩
  · -- a word still ends where it did
    refine tokens_word pos hword fun a ha => ?_
    cases u with
    | cons c u => exact hstop a ha
    | nil =>
      cases w with
      | nil => exact hstop a ha
      | cons c w => exact (hhead a ha).2
  · -- a glyph is still the same glyph
    obtain ⟨hblank, hhash⟩ := next?_splitLayout hnext
    have hs := Glyph.bytes_append_of_next? hnext
    rw [← hs] at hnext hstart
    have hnext' := Glyph.next?_insert hnext fun a ha => (hhead a ha).1
    have hne : g.bytes ≠ [] := List.ne_nil_of_length_pos g.length_bytes_pos
    rw [List.head?_append_of_ne_nil _ hne] at hstart
    refine tokens_glyph pos hnext' hblank hhash (lexeme?_glyph hnext' ?_)
    rwa [List.head?_append_of_ne_nil _ hne]

/-- **Layout moves tokens and does nothing else.** -/
theorem tokens_insert_layout (h : Divides s a b) (hw : IsLayout w) (pos : Nat) :
    (⟨pos, a ++ (w ++ b)⟩ : Lexer).tokens =
      (⟨pos, s⟩ : Lexer).tokens.map (Token.moved (pos + a.length) w.length) := by
  induction h generalizing pos with
  | start s => exact tokens_layout pos hw s
  | @before s x rest k hlex =>
    -- the layout before the token is complete, so what is put in joins it
    have hlayout := isLayout_of_lexeme? hlex
    have hs : (⟨pos, s⟩ : Lexer).tokens =
        (⟨pos + (splitLayout s).1.length, (splitLayout s).2⟩ : Lexer).tokens := by
      conv_lhs => rw [← splitLayout_append s]
      exact tokens_skip pos hlayout _
    rw [hs, tokens_skip pos hlayout, tokens_layout _ hw]
  | @behind s x rest a b k hlex hdiv ih =>
    have hx : 0 < x.length := by
      have hlt := length_lt_of_lexeme? hlex
      rw [← append_of_lexeme? hlex, List.length_append] at hlt
      omega
    -- the token stays where it is, and the place is the same seen from behind it
    have hstays : pos + (splitLayout s).1.length < pos + ((splitLayout s).1 ++ (x ++ a)).length := by
      simp only [List.length_append]
      omega
    have hplace : pos + (splitLayout s).1.length + x.length + a.length =
        pos + ((splitLayout s).1 ++ (x ++ a)).length := by
      simp only [List.length_append]
      omega
    have hinsert := hlex
    rw [← hdiv.append] at hinsert
    rw [List.append_assoc, List.append_assoc, tokens_skip pos (isLayout_of_lexeme? hlex),
      tokens_insert _ hinsert hw, ih, tokens_of_lexeme? (l := ⟨pos, s⟩) hlex, List.map_cons,
      Token.moved_of_lt hstays, hplace]
  | @atEnd s hlex =>
    have hnil := hw.splitLayout_append (lexeme?_eq_none hlex)
    rw [tokens_eq_nil (l := ⟨pos, s⟩) hlex, List.append_nil, List.map_nil]
    refine tokens_eq_nil ?_
    rw [hnil]
    rfl

end Lexer

/-! ### Parsing -/

namespace Parser

/-- The machine over tokens that stand elsewhere: a token that it refuses is the same one, as it stands
there. -/
theorem run_map {f : Token → Token} (hf : ∀ tok, (f tok).word = tok.word) {n n' : Nat}
    (hend : f (.atEnd n) = .atEnd n') (m : Mode) (stack : List Frame) (toks : List Token) :
    (run n' m stack (toks.map f)).1 =
      (run n m stack toks).1.mapError fun e => ⟨e.expected, f e.found⟩ := by
  -- a step depends on the word of a token alone
  induction toks generalizing m stack with
  | nil =>
    simp only [List.map_nil, run, ← hend, step_congr (hf (.atEnd n))]
    cases step m stack (.atEnd n) <;> rfl
  | cons tok toks ih =>
    simp only [List.map_cons, run, step_congr (hf tok)]
    cases step m stack tok with
    | shift m' stack' => exact ih m' stack'
    | accept t => rfl
    | refuse e => rfl

end Parser

/-- The error in a text into which `n` bytes have been put at the offset `p`. -/
def SyntaxError.moved (p n : Nat) (e : SyntaxError) : SyntaxError := ⟨e.expected, e.found.moved p n⟩

theorem SyntaxError.reason_moved (p n : Nat) (e : SyntaxError) : (e.moved p n).reason = e.reason := by
  unfold reason moved
  simp only [Token.describe_moved]

/-- The text with `w` put in at the offset `p`. -/
def Text.inserted (s : Text) (p : Nat) (w : Text) : Text := s.take p ++ (w ++ s.drop p)

/-- The offset `p` lies right before or right behind a token of the source, its end included. -/
def IsPlace (s : Text) (p : Nat) : Prop :=
  ∃ tok ∈ sourceTokens s, p = tok.pos ∨ p = tok.pos + tok.text.length

namespace IsPlace

variable {s w : Text} {p : Nat}

/-- The lexer comes to each place. -/
theorem exists_divides (hp : IsPlace s p) : ∃ a b, Divides s a b ∧ a.length = p := by
  obtain ⟨tok, htok, hp⟩ := hp
  rcases List.mem_append.1 htok with htok | htok
  · obtain ⟨⟨a, b, hab, hbefore⟩, a', b', hab', hbehind⟩ := Lexer.exists_divides 0 htok
    rcases hp with rfl | rfl
    · exact ⟨a, b, hab, by omega⟩
    · exact ⟨a', b', hab', by omega⟩
  · rw [List.mem_singleton] at htok
    have hend : p = s.length := by simpa [htok, Token.atEnd] using hp
    exact ⟨s, [], Lexer.divides_end s, hend.symm⟩

/-- **Tokens move, the end included.** -/
theorem sourceTokens_inserted (hp : IsPlace s p) (hw : IsLayout w) :
    sourceTokens (s.inserted p w) = (sourceTokens s).map (Token.moved p w.length) := by
  obtain ⟨a, b, hab, rfl⟩ := hp.exists_divides
  have hs := hab.append
  have hlen : a.length ≤ s.length := by simp [← hs]
  have hend : (Token.atEnd s.length).moved a.length w.length = .atEnd (s.length + w.length) :=
    Token.moved_of_le hlen _
  have hinsert : s.inserted a.length w = a ++ (w ++ b) := by
    rw [Text.inserted, ← hs, List.take_left, List.drop_left]
  have htokens := Lexer.tokens_insert_layout hab hw 0
  rw [Nat.zero_add] at htokens
  have hlength : (a ++ (w ++ b)).length = s.length + w.length := by
    simp only [← hs, List.length_append]
    omega
  rw [hinsert, sourceTokens, sourceTokens, List.map_append, List.map_singleton, hend, hlength]
  exact congrArg (· ++ _) htokens

/-- The parser gives the same result, about the token as it stands now. -/
theorem parse_inserted (hp : IsPlace s p) (hw : IsLayout w) :
    Term.parse (s.inserted p w) = (Term.parse s).mapError (SyntaxError.moved p w.length) := by
  have htokens := hp.sourceTokens_inserted hw
  rw [sourceTokens, sourceTokens, List.map_append, List.map_singleton] at htokens
  obtain ⟨hahead, hend⟩ := List.append_singleton_inj.1 htokens
  rw [Term.parse_eq_run, Term.parse_eq_run, hahead]
  exact Parser.run_map (Token.word_moved p w.length) hend.symm .term [] _

end IsPlace

/-- **Layout does not matter.**  White space and complete comments, put in before or behind any token of a
source, leave the kinds and the texts of its tokens as they are.  So the source spells the same term, or
it is refused for the same reason, at the offset to which the refused token has moved. -/
theorem Term.parse_layout_inserted {s w : Text} {p : Nat} (hp : IsPlace s p) (hw : IsLayout w) :
    (sourceTokens (s.inserted p w)).map Token.word = (sourceTokens s).map Token.word ∧
      (∀ t, Term.parse s = .ok t → Term.parse (s.inserted p w) = .ok t) ∧
      ∀ e, Term.parse s = .error e → ∃ e', Term.parse (s.inserted p w) = .error e' ∧
        e'.reason = e.reason ∧ e'.pos = if e.pos < p then e.pos else e.pos + w.length := by
  have hparse := hp.parse_inserted hw
  refine ⟨?_, ?_, ?_⟩
  · rw [hp.sourceTokens_inserted hw, List.map_map]
    exact List.map_congr_left fun tok _ => Token.word_moved p w.length tok
  · intro t ht
    rw [hparse, ht]
    rfl
  · intro e he
    rw [he] at hparse
    exact ⟨e.moved p w.length, hparse, e.reason_moved p w.length, e.found.pos_moved p w.length⟩

/-- A wide space and a comment behind a byte with which a character of three bytes could start. -/
theorem Term.parse_layout_inserted_at_stray_byte :
    let s : Text := 0xE2 :: utf8 "(x y"
    let w : Text := utf8 "\u3000# a note\n"
    let e : SyntaxError := ⟨.rightParen, .atEnd 5⟩
    IsPlace s 1 ∧ IsLayout w ∧ Term.parse s = .error e ∧
      (sourceTokens (s.inserted 1 w)).map Token.word = (sourceTokens s).map Token.word ∧
      ∃ e', Term.parse (s.inserted 1 w) = .error e' ∧ e'.reason = e.reason ∧ e'.pos = 17 := by
  intro s w e
  have hp : IsPlace s 1 := ⟨⟨.identifier, [0xE2], 0⟩, by decide +kernel, Or.inr rfl⟩
  have hw : IsLayout w :=
    .blank (c := '\u3000') (by decide) (.comment (by decide : Text.newline ∉ utf8 " a note") .nil)
  have he : Term.parse s = .error e := by decide +kernel
  obtain ⟨hwords, -, herror⟩ := parse_layout_inserted hp hw
  exact ⟨hp, hw, he, hwords, herror e he⟩

end CallByValue
