import CallByValue.Proofs.Source.Layout
import Mathlib.Order.Monotone.Basic

/-!
# Reading token after token

The lexer is read again and again, also where the source has ended (`Lexer.after`, `Lexer.reading`).
Every reading starts where the one before has stopped.  What is read is a token of the source or, once
there is none left, the end (`Lexer.reading_eq_getD`).

Between the place where a reading starts and its token stands layout (`Lexer.On.extract_layout`).  It is
complete before a token; only behind the last one a comment may be open (`IsFinalLayout`).

**Main theorem** (`Lexer.readings_tile`): after at most as many readings as the source has bytes the end
is read.  The tokens before it and the layout around them follow one another and make up the whole source.
-/

namespace CallByValue

/-! ### Layout at the end of a source -/

/-- A comment that no line break ends. -/
def IsOpenComment (w : Text) : Prop := ∃ body, w = utf8 "#" ++ body ∧ Text.newline ∉ body

/-- White space and comments, the last of which may be open. -/
def IsFinalLayout (w : Text) : Prop := ∃ v u, w = v ++ u ∧ IsLayout v ∧ (u = [] ∨ IsOpenComment u)

namespace IsFinalLayout

variable {v w : Text}

theorem nil : IsFinalLayout [] := ⟨[], [], rfl, .nil, .inl rfl⟩

theorem prepend (hv : IsLayout v) (hw : IsFinalLayout w) : IsFinalLayout (v ++ w) := by
  obtain ⟨v', u, rfl, hv', hu⟩ := hw
  exact ⟨v ++ v', u, (List.append_assoc ..).symm, hv.append hv', hu⟩

theorem of_newline_cons (h : IsFinalLayout (Text.newline :: w)) : IsFinalLayout w := by
  obtain ⟨v, u, hw, hv, hu⟩ := h
  cases v with
  | nil =>
    -- the line break can only belong to the layout before an open comment
    rcases hu with rfl | ⟨body, rfl, -⟩
    · simp at hw
    · exact absurd (List.cons.inj hw).1 (by decide)
  | cons b v =>
    obtain ⟨rfl, rfl⟩ := List.cons.inj hw
    exact ⟨v, u, rfl, hv.of_newline_cons, hu⟩

end IsFinalLayout

/-- What is skipped up to the end of a source is layout, perhaps with a comment that is open. -/
theorem isFinalLayout_splitLayout {s : Text} (h : (splitLayout s).2 = []) :
    IsFinalLayout (splitLayout s).1 := by
  fun_induction splitLayout s with
  | case1 => exact .nil
  | case2 s g rest _ hblank ih =>
    cases g with
    | stray b => simp [Glyph.isBlank] at hblank
    | char c =>
      have hc : IsLayout (String.utf8EncodeChar c) := by
        simpa using IsLayout.blank (c := c) hblank .nil
      exact .prepend hc (ih h)
  | case3 s rest hnext _ ih =>
    have hfinal := ih h
    have hbody : Text.newline ∉ rest.takeWhile (· != Text.newline) := by
      intro hmem
      simpa using List.mem_takeWhile_imp hmem
    have hrest := rest.takeWhile_append_dropWhile (p := (· != Text.newline))
    generalize rest.takeWhile (· != Text.newline) = body at hbody hrest ⊢
    show IsFinalLayout (utf8 "#" ++ body ++ _)
    cases hdrop : rest.dropWhile (· != Text.newline) with
    | nil =>
      rw [splitLayout_nil, List.append_nil]
      exact ⟨[], _, rfl, .nil, .inr ⟨body, rfl, hbody⟩⟩
    | cons b rest' =>
      have hb : b = Text.newline := by
        have hstop := List.head?_dropWhile_not (· != Text.newline) rest
        rw [hdrop] at hstop
        simpa using hstop
      rw [hdrop, hb, splitLayout_newline_cons] at hfinal
      rw [hb, splitLayout_newline_cons]
      have hclosed : IsLayout (utf8 "#" ++ (body ++ [Text.newline])) := .comment hbody .nil
      have hall := IsFinalLayout.prepend hclosed hfinal.of_newline_cons
      rwa [List.append_assoc, List.append_assoc, List.singleton_append, ← List.append_assoc] at hall
  | case4 => exact .nil

namespace Lexer

/-! ### One reading -/

section Next

variable {s : Text} {l : Lexer}

theorem pos_next (l : Lexer) : l.next.1.pos = l.pos + (splitLayout l.rest).1.length := by
  cases hlex : lexeme? (splitLayout l.rest).2 <;> simp only [next, hlex, Token.atEnd]

theorem pos_next_snd (l : Lexer) : l.next.2.pos = l.next.1.pos + l.next.1.text.length := by
  obtain ⟨-, -, -, hpos⟩ := l.exists_layout
  exact hpos

theorem pos_le_pos_next (l : Lexer) : l.pos ≤ l.next.1.pos := by
  rw [pos_next]
  exact Nat.le_add_right _ _

theorem On.pos_le (h : l.On s) : l.pos ≤ s.length := by
  obtain ⟨before, rfl, hpos⟩ := h
  simp [hpos]

/-- Between the place of the lexer and the next token stands the layout that is skipped. -/
theorem On.extract_layout (h : l.On s) : s.extract l.pos l.next.1.pos = (splitLayout l.rest).1 := by
  obtain ⟨before, rfl, hpos⟩ := h
  have hsplit := splitLayout_append l.rest
  rw [pos_next, hpos, List.extract_eq_take_drop, List.drop_left, Nat.add_sub_cancel_left]
  generalize splitLayout l.rest = parts at hsplit ⊢
  rw [← hsplit, List.take_left]

theorem On.extract_text (h : l.On s) :
    s.extract l.next.1.pos (l.next.1.pos + l.next.1.text.length) = l.next.1.text := by
  rw [List.extract_eq_take_drop, Nat.add_sub_cancel_left]
  exact (List.prefix_iff_eq_take.1 h.text_next).symm

theorem isLayout_of_kind (h : l.next.1.kind ≠ .endOfInput) : IsLayout (splitLayout l.rest).1 := by
  obtain ⟨rest, hlex⟩ := exists_lexeme h
  exact isLayout_of_lexeme? hlex

theorem isFinalLayout_of_kind (h : l.next.1.kind = .endOfInput) :
    IsFinalLayout (splitLayout l.rest).1 :=
  isFinalLayout_splitLayout (lexeme?_eq_none (lexeme?_eq_none_of_kind h))

end Next

/-! ### Readings -/

/-- The place after `n` readings. -/
def after (l : Lexer) : Nat → Lexer
  | 0 => l
  | n + 1 => (l.after n).next.2

/-- What is read after `n` readings. -/
def reading (l : Lexer) (n : Nat) : Token := (l.after n).next.1

variable {s : Text} {l : Lexer}

theorem On.after (h : l.On s) (n : Nat) : (l.after n).On s := by
  induction n with
  | zero => exact h
  | succ n ih => exact ih.next

theorem pos_after_succ (l : Lexer) (n : Nat) :
    (l.after (n + 1)).pos = (l.reading n).pos + (l.reading n).text.length :=
  pos_next_snd _

theorem pos_after_le (l : Lexer) (n : Nat) : (l.after n).pos ≤ (l.reading n).pos :=
  pos_le_pos_next _

/-- The lexer never goes back. -/
theorem monotone_pos_after (l : Lexer) : Monotone fun n => (l.after n).pos := by
  refine monotone_nat_of_le_succ fun n => ?_
  have hle := l.pos_after_le n
  have hsucc := l.pos_after_succ n
  omega

theorem monotone_pos_reading (l : Lexer) : Monotone fun n => (l.reading n).pos := by
  refine monotone_nat_of_le_succ fun n => ?_
  have hle := l.pos_after_le (n + 1)
  have hsucc := l.pos_after_succ n
  omega

theorem On.tokens_after (h : l.On s) (n : Nat) : (l.after n).tokens = l.tokens.drop n := by
  induction n with
  | zero => rfl
  | succ n ih => rw [← List.tail_drop, ← ih, ← (h.after n).tokens_next, Lexer.after]

/-- **What the readings give**: the tokens of the source, and then the end again and again. -/
theorem reading_eq_getD (s : Text) (n : Nat) :
    (ofText s).reading n = (ofText s).tokens.getD n (.atEnd s.length) := by
  have h := on_ofText s
  rw [reading, (h.after n).next_fst, h.tokens_after, List.headD_eq_head?_getD, List.head?_drop,
    List.getD_eq_getElem?_getD]

theorem reading_mem (s : Text) {n : Nat} (hn : n < (ofText s).tokens.length) :
    (ofText s).reading n ∈ (ofText s).tokens := by
  rw [reading_eq_getD, List.getD_eq_getElem _ _ hn]
  exact List.getElem_mem hn

theorem reading_eq_atEnd (s : Text) {n : Nat} (hn : (ofText s).tokens.length ≤ n) :
    (ofText s).reading n = .atEnd s.length := by
  rw [reading_eq_getD, List.getD_eq_default _ _ hn]

/-- **The lexer tiles its input.**  After `n` readings, at most as many as the source has bytes, the end is
read, then and ever after.  Each reading before that gives a token, which is not empty and stands in the
source behind the tokens read before.  The bytes between two tokens and before the first are white space
and complete comments, those behind the last too, except that a comment may be open there.  The place never
lies behind the end. -/
theorem readings_tile (s : Text) :
    let place (i : Nat) : Nat := ((ofText s).after i).pos
    let token (i : Nat) : Token := (ofText s).reading i
    let finish (i : Nat) : Nat := (token i).pos + (token i).text.length
    ∃ n ≤ s.length,
      (∀ i < n, (token i).kind ≠ .endOfInput ∧ (token i).text ≠ [] ∧ finish i ≤ s.length ∧
        s.extract (token i).pos (finish i) = (token i).text) ∧
      (∀ i j, i < j → j < n → finish i ≤ (token j).pos) ∧
      (place 0 = 0 ∧ ∀ i, place (i + 1) = finish i) ∧
      (∀ i < n, IsLayout (s.extract (place i) (token i).pos)) ∧
      IsFinalLayout (s.extract (place n) s.length) ∧
      (∀ i, place i ≤ s.length) ∧
      ∀ i, n ≤ i → token i = .atEnd s.length := by
  intro place token finish
  have hon (i : Nat) : ((ofText s).after i).On s := (on_ofText s).after i
  have hplace (i : Nat) : place (i + 1) = finish i := pos_after_succ _ i
  have hbound (i : Nat) : place i ≤ s.length := (hon i).pos_le
  have hkind {i : Nat} (hi : i < (ofText s).tokens.length) : (token i).kind ≠ .endOfInput :=
    kind_ne_endOfInput_of_mem_tokens (reading_mem s hi)
  refine ⟨(ofText s).tokens.length, length_tokens_le _, fun i hi => ⟨hkind hi, ?_, ?_, ?_⟩, ?_,
    ⟨rfl, hplace⟩, fun i hi => ?_, ?_, hbound, fun i hi => reading_eq_atEnd s hi⟩
  · exact text_next_ne_nil (hkind hi)
  · exact hplace i ▸ hbound (i + 1)
  · exact (hon i).extract_text
  · -- a token starts behind its place, and places do not go back
    intro i j hij _
    calc finish i = place (i + 1) := (hplace i).symm
      _ ≤ place j := monotone_pos_after _ hij
      _ ≤ (token j).pos := pos_after_le _ j
  · exact (hon i).extract_layout ▸ isLayout_of_kind (hkind hi)
  · have hend := reading_eq_atEnd s (Nat.le_refl (ofText s).tokens.length)
    have hlayout := (hon (ofText s).tokens.length).extract_layout
    rw [show (((ofText s).after _).next.1).pos = s.length from congrArg Token.pos hend] at hlayout
    rw [hlayout]
    exact isFinalLayout_of_kind (congrArg Token.kind hend)

/-- A lambda of two bytes, then the first of its bytes alone and a comment that is open. -/
theorem readings_tile_at_stray_byte :
    let s : Text := utf8 " λx" ++ 0xCE :: utf8 "# open"
    let token (i : Nat) : Token := (ofText s).reading i
    ∃ n ≤ s.length, 2 < n ∧ token 2 = ⟨.identifier, [0xCE], 4⟩ ∧ s.extract 4 5 = [0xCE] ∧
      IsLayout (s.extract 0 1) ∧ IsFinalLayout (s.extract ((ofText s).after n).pos s.length) ∧
      token n = .atEnd s.length := by
  intro s token
  have hfirst : token 0 = ⟨.lambda, utf8 "λ", 1⟩ := by decide +kernel
  have hthird : token 2 = ⟨.identifier, [0xCE], 4⟩ := by decide +kernel
  obtain ⟨n, hn, htoken, -, -, hlayout, hfinal, -, hend⟩ := readings_tile s
  have hlt : 2 < n := by
    by_contra hle
    exact absurd (hthird.symm.trans (hend 2 (by omega))) (by decide)
  obtain ⟨-, -, -, htext⟩ := htoken 2 hlt
  have hbefore := hlayout 0 (by omega)
  dsimp only at htext hbefore
  rw [show (ofText s).reading 2 = _ from hthird] at htext
  rw [show (ofText s).reading 0 = _ from hfirst] at hbefore
  exact ⟨n, hn, hlt, hthird, htext, hbefore, hfinal, hend n (Nat.le_refl n)⟩

end Lexer

end CallByValue
