import CallByValue.Proofs.Source.Parse
import CallByValue.Proofs.Source.Places

/-!
# The first offending token

Tokens are viable if some source of a term starts with them, wherever they stand (`Viable`).  A syntax
error points at the token with which they stop being viable.

* The machine refuses a token exactly if it takes all tokens before it one by one
  (`Parser.run_eq_error_iff`).  It sees words only, so in any other source that starts with the same
  words it refuses the same one.
* Wherever the machine stands, it can be led to the end: an identifier completes the term that is open,
  and then closing parentheses and `let` bodies close one construct after another
  (`Parser.run_completion`).  So what it has taken is viable.

**Main theorem** (`Term.error_at_first_offending_token`): a source that is refused is viable before the
offset of the error and no longer viable with the token that starts there.
-/

namespace CallByValue

/-- Some source of a term starts with the words of these tokens. -/
def Viable (toks : List Token) : Prop :=
  ∃ s t, Term.parse s = .ok t ∧ toks.map Token.word <+: (sourceTokens s).map Token.word

namespace Parser

variable {m m' : Mode} {stack stack' : List Frame} {tok tok' : Token} {pre rest toks : List Token}
  {n : Nat}

/-! ### Taken tokens -/

/-- The machine takes the tokens one by one. -/
inductive Shifts : Mode → List Frame → List Token → Mode → List Frame → Prop where
  | nil {m : Mode} {stack : List Frame} : Shifts m stack [] m stack
  | cons {m m₁ m₂ : Mode} {stack stack₁ stack₂ : List Frame} {tok : Token} {toks : List Token} :
      step m stack tok = .shift m₁ stack₁ → Shifts m₁ stack₁ toks m₂ stack₂ →
      Shifts m stack (tok :: toks) m₂ stack₂

/-- The machine does not see where a token stands. -/
theorem step_congr (h : tok.word = tok'.word) (m : Mode) (stack : List Frame) :
    step m stack tok = step m stack tok' := by
  obtain ⟨k, w, pos⟩ := tok
  obtain ⟨k', w', pos'⟩ := tok'
  simp only [Token.word, Prod.mk.injEq] at h
  obtain ⟨rfl, rfl⟩ := h
  cases m <;> rfl

theorem Shifts.congr (h : Shifts m stack pre m' stack') (hwords : toks.map Token.word =
    pre.map Token.word) : Shifts m stack toks m' stack' := by
  induction h generalizing toks with
  | nil =>
    rw [List.map_nil, List.map_eq_nil_iff] at hwords
    rw [hwords]
    exact .nil
  | cons hstep _ ih =>
    rw [List.map_cons, List.map_eq_cons_iff] at hwords
    obtain ⟨tok, toks, rfl, htok, htoks⟩ := hwords
    exact .cons ((step_congr htok _ _).trans hstep) (ih htoks)

theorem Shifts.run (h : Shifts m stack pre m' stack') (n : Nat) (rest : List Token) :
    run n m stack (pre ++ rest) = run n m' stack' rest := by
  induction h with
  | nil => rfl
  | cons hstep _ ih => rw [List.cons_append, run_shift n hstep, ih]

/-! ### The refused token -/

/-- **A run fails at the first token that is refused.** -/
theorem run_eq_error_iff {e : SyntaxError} :
    (run n m stack toks).1 = .error e ↔ ∃ pre rest m' stack',
      toks ++ [.atEnd n] = pre ++ e.found :: rest ∧ Shifts m stack pre m' stack' ∧
      step m' stack' e.found = .refuse e.expected := by
  constructor
  · intro h
    induction toks generalizing m stack with
    | nil =>
      cases hstep : step m stack (.atEnd n) with
      | accept t => simp [Parser.run, hstep] at h
      | shift m' stack' => exact absurd hstep (step_atEnd_ne_shift n m stack)
      | refuse x =>
        simp only [Parser.run, hstep, Except.error.injEq] at h
        subst h
        exact ⟨[], [], m, stack, rfl, .nil, hstep⟩
    | cons tok toks ih =>
      cases hstep : step m stack tok with
      | accept t => simp [Parser.run, hstep] at h
      | shift m₁ stack₁ =>
        rw [run_shift n hstep] at h
        obtain ⟨pre, rest, m', stack', htoks, hshifts, href⟩ := ih h
        exact ⟨tok :: pre, rest, m', stack', congrArg (tok :: ·) htoks, .cons hstep hshifts, href⟩
      | refuse x =>
        simp only [Parser.run, hstep, Except.error.injEq] at h
        subst h
        exact ⟨[], toks ++ [.atEnd n], m, stack, rfl, .nil, hstep⟩
  · rintro ⟨pre, rest, m', stack', htoks, hshifts, href⟩
    induction hshifts generalizing toks with
    | nil =>
      cases toks with
      | nil =>
        obtain ⟨hfound, -⟩ := List.cons.inj htoks
        simp only [Parser.run, hfound, href]
      | cons tok toks =>
        obtain ⟨hfound, -⟩ := List.cons.inj htoks
        simp only [Parser.run, hfound, href]
    | cons hstep _ ih =>
      cases toks with
      | nil =>
        obtain ⟨-, hnil⟩ := List.cons.inj htoks
        simp at hnil
      | cons tok toks =>
        obtain ⟨rfl, htail⟩ := List.cons.inj htoks
        rw [run_shift n hstep]
        exact ih htail href

/-! ### Leading the machine to the end -/

/-- The identifier that completes terms. -/
def filler : Token.Kind × Text := (.identifier, utf8 "x")

/-- The words that close all open constructs. -/
def closing : List Frame → List (Token.Kind × Text)
  | [] => []
  | .bind _ :: stack => closing stack
  | .lastArg _ :: stack => closing stack
  | .letBody _ _ :: stack => closing stack
  | .group _ :: stack => (.rightParen, utf8 ")") :: closing stack
  | .letValue _ :: stack => (.inWord, utf8 "in") :: filler :: closing stack

/-- The words that lead the machine to the end. -/
def completion : Mode → List Frame → List (Token.Kind × Text)
  | .term, stack => filler :: closing stack
  | .identifier _ _, stack => closing stack
  | .atom _, stack => closing stack
  | .lambda, stack => filler :: (.dot, utf8 ".") :: filler :: closing stack
  | .parameters, stack => (.dot, utf8 ".") :: filler :: closing stack
  | .letWord, stack => filler :: (.equals, utf8 "=") :: filler :: (.inWord, utf8 "in") :: filler ::
      closing stack
  | .semicolon, stack => (.inWord, utf8 "in") :: filler :: closing stack
  | .letName _, stack => (.equals, utf8 "=") :: filler :: (.inWord, utf8 "in") :: filler ::
      closing stack

/-- The words of completions. -/
def connectors : List (Token.Kind × Text) :=
  [filler, (.rightParen, utf8 ")"), (.inWord, utf8 "in"), (.dot, utf8 "."), (.equals, utf8 "=")]

theorem closing_subset_connectors (stack : List Frame) : closing stack ⊆ connectors := by
  induction stack with
  | nil => simp [closing]
  | cons frame stack ih =>
    cases frame with
    | bind x | lastArg f | letBody x v => exact ih
    | group f => exact List.cons_subset.2 ⟨by decide, ih⟩
    | letValue x => exact List.cons_subset.2 ⟨by decide, List.cons_subset.2 ⟨by decide, ih⟩⟩

theorem completion_subset_connectors (m : Mode) (stack : List Frame) :
    completion m stack ⊆ connectors := by
  have hclosing := closing_subset_connectors stack
  cases m <;> simp only [completion, List.cons_subset, hclosing, and_true] <;> decide

theorem writable_of_mem_connectors {w : Token.Kind × Text} (h : w ∈ connectors) :
    Lexer.Writable w := by
  simp only [connectors, List.mem_cons, List.not_mem_nil, or_false] at h
  rcases h with rfl | rfl | rfl | rfl | rfl
  · exact Lexer.writable_name (by decide +kernel)
  · exact Lexer.writable_mark (c := ')') (by decide) (by decide)
  · exact Lexer.writable_word (w := utf8 "in") (by decide)
  · exact Lexer.writable_mark (c := '.') (by decide) (by decide)
  · exact Lexer.writable_mark (c := '=') (by decide) (by decide)

/-- Closing starts with a token that ends terms, if only with the end of the source. -/
theorem isCloser_of_closing (h : toks.map Token.word = closing stack) :
    (headKind toks).isCloser = true := by
  induction stack with
  | nil =>
    rw [closing, List.map_eq_nil_iff] at h
    rw [h]
    rfl
  | cons frame stack ih =>
    cases frame with
    | bind x | lastArg f | letBody x v => exact ih h
    | group f | letValue x =>
      rw [closing, List.map_eq_cons_iff] at h
      obtain ⟨tok, toks, rfl, htok, -⟩ := h
      rw [headKind_cons, show tok.kind = _ from congrArg Prod.fst htok]
      rfl

theorem run_variable (n : Nat) (htok : tok.kind = .identifier)
    (h : (headKind toks).isCloser = true) :
    run n .term stack (tok :: toks) = run n (.atom (.var tok.text)) stack toks :=
  reads_var htok none stack toks (Token.Kind.isCloser.ne_colon h)

/-- Behind a term all open constructs can be closed. -/
theorem run_closing (n : Nat) (t : Term) (h : toks.map Token.word = closing stack) :
    ∃ u, (run n (.atom t) stack toks).1 = .ok u := by
  have hclose := isCloser_of_closing h
  -- on the stack: each frame makes a larger term of `t`, and the open ones ask for their words first
  induction stack generalizing t toks with
  | nil =>
    rw [closing, List.map_eq_nil_iff] at h
    exact ⟨t, by rw [h]; rfl⟩
  | cons frame stack ih =>
    cases frame with
    | bind x =>
      rw [run_bind n x t stack hclose]
      exact ih _ h hclose
    | lastArg f =>
      have hsame : run n (.atom t) (.lastArg f :: stack) toks = run n (.atom (.app f t)) stack toks :=
        run_inLastArg n (some f) t stack hclose
      rw [hsame]
      exact ih _ h hclose
    | letBody x v =>
      rw [run_letBody n x v t stack hclose]
      exact ih _ h hclose
    | group fn =>
      rw [closing, List.map_eq_cons_iff] at h
      obtain ⟨r, toks, rfl, hword, h⟩ := h
      rw [run_shift n (step_rightParen (congrArg Prod.fst hword) fn t stack)]
      exact ih _ h (isCloser_of_closing h)
    | letValue x =>
      rw [closing, List.map_eq_cons_iff] at h
      obtain ⟨i, toks, rfl, hi, h⟩ := h
      rw [List.map_eq_cons_iff] at h
      obtain ⟨y, toks, rfl, hy, h⟩ := h
      have hbody := isCloser_of_closing h
      rw [run_shift n (step_inWord (congrArg Prod.fst hi) x t stack),
        run_variable n (congrArg Prod.fst hy) hbody, run_letBody n x t _ stack hbody]
      exact ih _ h hbody

/-- Where a term must start, an identifier will do. -/
theorem run_filler (n : Nat) (h : toks.map Token.word = filler :: closing stack) :
    ∃ u, (run n .term stack toks).1 = .ok u := by
  rw [List.map_eq_cons_iff] at h
  obtain ⟨y, toks, rfl, hy, h⟩ := h
  rw [run_variable n (congrArg Prod.fst hy) (isCloser_of_closing h)]
  exact run_closing n _ h

/-- **The machine can be led to the end from everywhere.** -/
theorem run_completion (n : Nat) (h : toks.map Token.word = completion m stack) :
    ∃ u, (run n m stack toks).1 = .ok u := by
  cases m with
  | term => exact run_filler n h
  | identifier fn x =>
    rw [run_identifier n fn x stack (Token.Kind.isCloser.ne_colon (isCloser_of_closing h))]
    exact run_closing n _ h
  | atom t => exact run_closing n t h
  | lambda =>
    rw [completion, List.map_eq_cons_iff] at h
    obtain ⟨x, toks, rfl, hx, h⟩ := h
    rw [List.map_eq_cons_iff] at h
    obtain ⟨d, toks, rfl, hd, h⟩ := h
    rw [run_shift n (step_param (congrArg Prod.fst hx) (by simp) stack),
      run_shift n (step_dot (congrArg Prod.fst hd) _)]
    exact run_filler n h
  | parameters =>
    rw [completion, List.map_eq_cons_iff] at h
    obtain ⟨d, toks, rfl, hd, h⟩ := h
    rw [run_shift n (step_dot (congrArg Prod.fst hd) _)]
    exact run_filler n h
  | letWord =>
    rw [completion, List.map_eq_cons_iff] at h
    obtain ⟨x, toks, rfl, hx, h⟩ := h
    rw [List.map_eq_cons_iff] at h
    obtain ⟨e, toks, rfl, he, h⟩ := h
    rw [run_shift n (step_binding (congrArg Prod.fst hx) (by simp) stack),
      run_shift n (step_equals (congrArg Prod.fst he) _ _)]
    exact run_filler n h
  | semicolon =>
    rw [completion, List.map_eq_cons_iff] at h
    obtain ⟨i, toks, rfl, hi, h⟩ := h
    rw [run_shift n (step_semicolon_inWord (congrArg Prod.fst hi) stack)]
    exact run_filler n h
  | letName x =>
    rw [completion, List.map_eq_cons_iff] at h
    obtain ⟨e, toks, rfl, he, h⟩ := h
    rw [run_shift n (step_equals (congrArg Prod.fst he) _ _)]
    exact run_filler n h

/-! ### Viable tokens -/

/-- What the machine takes of a source is viable. -/
theorem viable_of_shifts (hwritable : ∀ tok ∈ pre, Lexer.Writable tok.word)
    (h : Shifts .term [] pre m stack) : Viable pre := by
  have hall : ∀ w ∈ pre.map Token.word ++ completion m stack, Lexer.Writable w := by
    intro w hw
    rcases List.mem_append.1 hw with hw | hw
    · obtain ⟨tok, htok, rfl⟩ := List.mem_map.1 hw
      exact hwritable tok htok
    · exact writable_of_mem_connectors (completion_subset_connectors m stack hw)
  let s := Lexer.spaced (pre.map Token.word ++ completion m stack)
  have hwords : (Lexer.ofText s).tokens.map Token.word = pre.map Token.word ++ completion m stack :=
    Lexer.map_word_tokens_spaced hall 0
  -- the source is read as the tokens that the machine took, and then as the completion
  obtain ⟨toks, ends, htoks, hpre, hends⟩ := List.map_eq_append_iff.1 hwords
  obtain ⟨t, ht⟩ := run_completion s.length hends
  rw [← (h.congr hpre).run s.length ends, ← htoks] at ht
  refine ⟨s, t, (Term.parse_eq_run s).trans ht, ?_⟩
  rw [sourceTokens, List.map_append, hwords, List.append_assoc]
  exact List.prefix_append _ _

/-- Tokens with a refused one as the last are not viable. -/
theorem not_viable_of_refuse {x : Expected} (h : Shifts .term [] pre m stack)
    (href : step m stack tok = .refuse x) : ¬ Viable (pre ++ [tok]) := by
  rintro ⟨s, t, ht, rest, hwords⟩
  rw [List.map_append, List.append_assoc, eq_comm, List.map_eq_append_iff] at hwords
  obtain ⟨toks, ends, htoks, hpre, hends⟩ := hwords
  obtain ⟨tok', ends, rfl, htok, -⟩ := List.map_eq_cons_iff.1 hends
  -- in the other source the machine takes the same words and refuses the same one
  have herror := run_eq_error_iff (e := ⟨x, tok'⟩).2
    ⟨toks, ends, m, stack, htoks, h.congr hpre, (step_congr htok m stack).trans href⟩
  rw [Term.parse_eq_run, herror] at ht
  exact absurd ht (by simp)

end Parser

/-- **A syntax error points at the first offending token.**  Its offset is that of a token of the source,
the end of the source included.  The tokens before that offset are the beginning of some term's source, and
together with the token at the offset they are the beginning of none. -/
theorem Term.error_at_first_offending_token {s : Text} {e : SyntaxError}
    (h : Term.parse s = .error e) :
    e.pos ≤ s.length ∧
      (∃ tok ∈ sourceTokens s, tok.pos = e.pos ∧ tok.text <+: s.drop e.pos) ∧
      Viable ((sourceTokens s).filter (·.pos < e.pos)) ∧
      ¬ Viable ((sourceTokens s).filter (·.pos ≤ e.pos)) := by
  rw [parse_eq_run] at h
  obtain ⟨pre, rest, m, stack, htoks, hshifts, href⟩ := Parser.run_eq_error_iff.1 h
  replace htoks : sourceTokens s = pre ++ e.found :: rest := htoks
  have hmem : e.found ∈ sourceTokens s := htoks ▸ List.mem_append_right _ List.mem_cons_self
  have hsorted := pairwise_pos_sourceTokens s
  rw [htoks] at hsorted
  -- offsets increase, so cutting by offset is cutting at the refused token
  have hbefore : (sourceTokens s).filter (·.pos < e.pos) = pre := htoks ▸ filter_pos_lt hsorted
  have hupto : (sourceTokens s).filter (·.pos ≤ e.pos) = pre ++ [e.found] :=
    htoks ▸ filter_pos_le hsorted
  have hpos : e.pos ≤ s.length := pos_le_of_mem hmem
  refine ⟨hpos, ⟨e.found, hmem, rfl, text_prefix_drop_of_mem hmem⟩, ?_, ?_⟩
  · rw [hbefore]
    refine Parser.viable_of_shifts (fun tok htok => ?_) hshifts
    rw [← hbefore, List.mem_filter, decide_eq_true_eq] at htok
    exact Lexer.writable_of_mem_tokens (mem_tokens_of_pos_lt htok.1 (htok.2.trans_le hpos))
  · rw [hupto]
    exact Parser.not_viable_of_refuse hshifts href

/-- A second equals sign, in the body of a `let` in parentheses under an abstraction that is an argument. -/
theorem Term.error_at_second_equals :
    let s := utf8 "f x: (let y = \\z w. z x;\n# bound\n in y x = y)"
    let e : SyntaxError := ⟨.term, ⟨.equals, utf8 "=", 41⟩⟩
    Term.parse s = .error e ∧ e.pos ≤ s.length ∧
      (∃ tok ∈ sourceTokens s, tok.pos = e.pos ∧ tok.text <+: s.drop e.pos) ∧
      Viable ((sourceTokens s).filter (·.pos < e.pos)) ∧
      ¬ Viable ((sourceTokens s).filter (·.pos ≤ e.pos)) := by
  intro s e
  have h : Term.parse s = .error e := by decide +kernel
  exact ⟨h, error_at_first_offending_token h⟩

end CallByValue
