import CallByValue.Proofs.Source.Descent
import CallByValue.Proofs.Source.Grammar

/-!
# The parser accepts the grammar

A run of the machine that ends in a term reads phrase after phrase.  From every place where a phrase
may start it takes the tokens of one and stands behind the term that they derive, before a token that
ends terms (`Parser.Finds`).  The proof goes by the number of tokens ahead, for all places at once
(`Parser.Sound`).

With the converse, `Parser.reads_of_derives`, a source parses to a term exactly if its tokens derive
the term (`Term.parse_eq_ok_iff`).
-/

namespace CallByValue

namespace Parser

variable (n : Nat) (t : Term)

/-- The tokens ahead start with a phrase, and the run goes on behind it before a token that ends
terms. -/
def Finds (phrase : List Token → Term → Prop) (stack : List Frame) (toks : List Token) : Prop :=
  ∃ ts rest a, toks = ts ++ rest ∧ phrase ts a ∧ (headKind rest).isCloser = true ∧
    (run n (.atom a) stack rest).1 = .ok t

/-- The tokens and arguments that make a whole term of the function read before them. -/
def Completes (fn : Option Term) (ts : List Token) (a : Term) : Prop :=
  match fn with
  | none => Derives .term ts a
  | some f => ∀ us, Derives .apps us f → Derives .term (us ++ ts) a

/-- What a run that ends in `t` finds in fewer than `k` tokens. -/
structure Sound (k : Nat) : Prop where
  /-- At the start of a term or behind an atom. -/
  entry (fn : Option Term) {stack : List Frame} {toks : List Token} (hk : toks.length < k)
    (h : (run n (entry fn) stack toks).1 = .ok t) : Finds n t (Completes fn) stack toks
  /-- Behind a parameter. -/
  parameters {x : Token} {stack : List Frame} {toks : List Token} (hx : x.kind = .identifier)
    (hk : toks.length < k) (h : (run n .parameters (.bind x.text :: stack) toks).1 = .ok t) :
    Finds n t (fun ts a => Derives .params (x :: ts) a) stack toks
  /-- Behind the word `let`. -/
  letWord {stack : List Frame} {toks : List Token} (hk : toks.length < k)
    (h : (run n .letWord stack toks).1 = .ok t) : Finds n t (Derives .bindings) stack toks
  /-- Behind the value of a binding. -/
  letRest {x : Name} {v : Term} {stack : List Frame} {toks : List Token} (hk : toks.length < k)
    (hclose : (headKind toks).isCloser = true)
    (h : (run n (.atom v) (.letValue x :: stack) toks).1 = .ok t) :
    Finds n t (fun ts a => ∃ b, a = .app (.abs x b) v ∧ Derives .letRest ts b) stack toks

variable {n t}

/-! ### Refused tokens -/

/-- A run that ends in a term takes a token where all others are refused. -/
theorem exists_cons_of_ok {m : Mode} {stack : List Frame} {toks : List Token}
    (kinds : List Token.Kind) (hend : .endOfInput ∉ kinds)
    (href : ∀ tok : Token, tok.kind = headKind toks → tok.kind ∉ kinds →
      ∃ e, step m stack tok = .refuse e)
    (h : (run n m stack toks).1 = .ok t) : ∃ tok rest, toks = tok :: rest ∧ tok.kind ∈ kinds := by
  cases toks with
  | nil =>
    obtain ⟨e, he⟩ := href (.atEnd n) rfl hend
    rw [run, he] at h
    exact absurd h (by simp)
  | cons tok rest =>
    by_cases hkind : tok.kind ∈ kinds
    · exact ⟨tok, rest, rfl, hkind⟩
    · obtain ⟨e, he⟩ := href tok rfl hkind
      rw [run, he] at h
      exact absurd h (by simp)

theorem exists_cons_kind_of_ok {m : Mode} {stack : List Frame} {toks : List Token}
    {kind : Token.Kind} (hend : kind ≠ .endOfInput)
    (href : ∀ tok : Token, tok.kind = headKind toks → tok.kind ≠ kind →
      ∃ e, step m stack tok = .refuse e)
    (h : (run n m stack toks).1 = .ok t) : ∃ tok rest, toks = tok :: rest ∧ tok.kind = kind := by
  have hex := exists_cons_of_ok [kind] (by simpa using hend.symm)
    (fun tok htok hne => href tok htok (by simpa using hne)) h
  simpa only [List.mem_singleton] using hex

/-! ### Whole terms -/

theorem Completes.nil (f : Term) : Completes (some f) [] f := by
  intro us hus
  rw [List.append_nil]
  exact .ofApps hus

theorem Completes.tail {ts : List Token} {a : Term} (h : Derives .tail ts a) (fn : Option Term) :
    Completes fn ts (applied fn a) := by
  cases fn with
  | none => exact .ofTail h
  | some f => exact fun us hus => .lastArg hus h

theorem Completes.atom {fn : Option Term} {ts us : List Token} {a b : Term} (h : Derives .atom ts a)
    (hus : Completes (some (applied fn a)) us b) : Completes fn (ts ++ us) b := by
  cases fn with
  | none => exact hus ts (.single h)
  | some f =>
    intro vs hvs
    rw [← List.append_assoc]
    exact hus (vs ++ ts) (.arg hvs h)

/-! ### One phrase from the phrases behind it -/

section Step

variable {k : Nat} {fn : Option Term} {stack : List Frame} {x : Token} {toks : List Token}

/-- A phrase inside a construct is a phrase with what opens the construct before it. -/
theorem Finds.frame {stack' : List Frame} {phrase phrase' : List Token → Term → Prop}
    (pre : List Token) (wrap : Term → Term)
    (hwrap : ∀ a rest, (headKind rest).isCloser = true →
      run n (.atom a) stack' rest = run n (.atom (wrap a)) stack rest)
    (hphrase : ∀ ts a, phrase ts a → phrase' (pre ++ ts) (wrap a))
    (h : Finds n t phrase stack' toks) : Finds n t phrase' stack (pre ++ toks) := by
  obtain ⟨ts, rest, a, rfl, ha, hclose, hrun⟩ := h
  rw [hwrap a rest hclose] at hrun
  exact ⟨pre ++ ts, rest, wrap a, (List.append_assoc ..).symm, hphrase ts a ha, hclose, hrun⟩

theorem Finds.prepend {phrase phrase' : List Token → Term → Prop} (pre : List Token)
    (hphrase : ∀ ts a, phrase ts a → phrase' (pre ++ ts) a)
    (h : Finds n t phrase stack toks) : Finds n t phrase' stack (pre ++ toks) :=
  h.frame pre id (fun _ _ _ => rfl) hphrase

theorem Finds.completes_tail (h : Finds n t (Derives .tail) (inLastArg fn stack) toks) :
    Finds n t (Completes fn) stack toks :=
  h.frame [] (applied fn) (fun a _ => run_inLastArg n fn a stack) fun _ _ ha => .tail ha fn

theorem Finds.completes_atom {ts : List Token} {a : Term} (ha : Derives .atom ts a)
    (h : Finds n t (Completes (some (applied fn a))) stack toks) :
    Finds n t (Completes fn) stack (ts ++ toks) :=
  h.prepend ts fun _ _ => .atom ha

theorem Sound.identifier (ih : Sound n t k) (hx : x.kind = .identifier) (hk : toks.length < k)
    (h : (run n (.identifier fn x.text) stack toks).1 = .ok t) :
    Finds n t (Completes fn) stack (x :: toks) := by
  by_cases hc : headKind toks = .colon
  · cases toks with
    | nil => exact absurd hc (by decide)
    | cons c toks =>
      rw [run_shift n (step_identifier_colon x.text hc)] at h
      have hbody := ih.entry none (Nat.lt_of_succ_lt hk) h
      refine Finds.completes_tail ?_
      exact hbody.frame [x, c] (.abs x.text) (fun a _ => run_bind n x.text a _) fun _ _ =>
        .colon hx hc
  · -- no parameter but an atom, with whatever arguments follow
    rw [run_identifier n fn x.text stack hc] at h
    exact (ih.entry (some _) hk h).completes_atom (.var hx)

theorem Sound.group (ih : Sound n t k) {l : Token} (hl : l.kind = .leftParen)
    (hk : toks.length < k) (h : (run n .term (.group fn :: stack) toks).1 = .ok t) :
    Finds n t (Completes fn) stack (l :: toks) := by
  obtain ⟨ts, rest, a, rfl, ha, hclose, hrun⟩ := ih.entry none hk h
  -- the token that ends the inner term can only be the closing parenthesis
  have href : ∀ tok : Token, tok.kind = headKind rest → tok.kind ≠ .rightParen →
      ∃ e, step (.atom a) (.group fn :: stack) tok = .refuse e := by
    intro tok htok hne
    rw [← htok] at hclose
    exact ⟨_, step_group_refuse a hclose hne⟩
  obtain ⟨r, rest, rfl, hr⟩ := exists_cons_kind_of_ok (by decide) href hrun
  rw [run_shift n (step_rightParen hr fn a stack)] at hrun
  have hlen : rest.length < k := by
    simp only [List.length_append, List.length_cons] at hk
    omega
  have hmore := (ih.entry (some _) hlen hrun).completes_atom (.paren hl ha hr)
  rwa [List.cons_append, List.append_assoc] at hmore

theorem Sound.lambda (ih : Sound n t k) (hk : toks.length < k)
    (h : (run n .lambda stack toks).1 = .ok t) : Finds n t (Derives .params) stack toks := by
  obtain ⟨x, toks, rfl, hx⟩ :=
    exists_cons_kind_of_ok (by decide) (fun _ _ hne => ⟨_, step_lambda_refuse hne⟩) h
  rw [run_shift n (step_param hx (by simp) stack)] at h
  have hparams := ih.parameters hx (Nat.lt_of_succ_lt hk) h
  exact hparams.prepend [x] fun _ _ ha => ha

theorem Sound.entry_succ (ih : Sound n t k) (hk : toks.length < k + 1)
    (h : (run n (Parser.entry fn) stack toks).1 = .ok t) : Finds n t (Completes fn) stack toks := by
  by_cases hend : ∃ f, fn = some f ∧ (headKind toks).isCloser = true
  · -- the term ends here
    obtain ⟨f, rfl, hclose⟩ := hend
    exact ⟨[], toks, f, rfl, .nil f, hclose, h⟩
  · have href : ∀ tok : Token, tok.kind = headKind toks → tok.kind ∉ starters →
        ∃ e, step (Parser.entry fn) stack tok = .refuse e := by
      intro tok htok hstart
      refine ⟨_, step_entry_refuse hstart ?_⟩
      cases fn with
      | none => exact Or.inl rfl
      | some f => exact Or.inr (by simpa [htok] using hend)
    obtain ⟨tok, toks, rfl, hstart⟩ := exists_cons_of_ok _ (by decide) href h
    have hk : toks.length < k := Nat.lt_of_succ_lt_succ hk
    simp only [starters, List.mem_cons, List.not_mem_nil, or_false] at hstart
    rcases hstart with hx | hl | hl | hl
    · rw [run_shift n (step_entry_identifier hx)] at h
      exact ih.identifier hx hk h
    · rw [run_shift n (step_entry_leftParen hl)] at h
      exact ih.group hl hk h
    · rw [run_shift n (step_entry_lambda hl)] at h
      exact Finds.completes_tail ((ih.lambda hk h).prepend [tok] fun _ _ => .lambda hl)
    · rw [run_shift n (step_entry_letWord hl)] at h
      exact Finds.completes_tail ((ih.letWord hk h).prepend [tok] fun _ _ => .letIn hl)

theorem Sound.parameters_succ (ih : Sound n t k) (hx : x.kind = .identifier)
    (hk : toks.length < k + 1) (h : (run n .parameters (.bind x.text :: stack) toks).1 = .ok t) :
    Finds n t (fun ts a => Derives .params (x :: ts) a) stack toks := by
  have href : ∀ tok : Token, tok.kind = headKind toks → tok.kind ∉ [.identifier, .dot] →
      ∃ e, step .parameters (.bind x.text :: stack) tok = .refuse e := by
    intro tok _ hne
    simp only [List.mem_cons, List.not_mem_nil, or_false, not_or] at hne
    exact ⟨_, step_parameters_refuse hne.1 hne.2⟩
  obtain ⟨tok, toks, rfl, hkind⟩ := exists_cons_of_ok _ (by decide) href h
  have hk : toks.length < k := Nat.lt_of_succ_lt_succ hk
  simp only [List.mem_cons, List.not_mem_nil, or_false] at hkind
  rcases hkind with hy | hd
  · rw [run_shift n (step_param hy (by simp) _)] at h
    exact (ih.parameters hy hk h).frame [tok] (.abs x.text) (fun a _ => run_bind n x.text a stack)
      fun _ _ => .param hx
  · rw [run_shift n (step_dot hd _)] at h
    exact (ih.entry none hk h).frame [tok] (.abs x.text) (fun a _ => run_bind n x.text a stack)
      fun _ _ => .lastParam hx hd

theorem Sound.letWord_succ (ih : Sound n t k) (hk : toks.length < k + 1)
    (h : (run n .letWord stack toks).1 = .ok t) : Finds n t (Derives .bindings) stack toks := by
  obtain ⟨x, toks, rfl, hx⟩ :=
    exists_cons_kind_of_ok (by decide) (fun _ _ hne => ⟨_, step_letWord_refuse hne⟩) h
  rw [run_shift n (step_binding hx (by simp) stack)] at h
  obtain ⟨e, toks, rfl, he⟩ :=
    exists_cons_kind_of_ok (by decide) (fun _ _ hne => ⟨_, step_letName_refuse _ hne⟩) h
  rw [run_shift n (step_equals he _ stack)] at h
  -- the value is a term, and what stands behind it is the rest of the `let`
  simp only [List.length_cons] at hk
  obtain ⟨ts, rest, v, rfl, hv, hclose, hrun⟩ := ih.entry none (by omega) h
  rw [List.length_append] at hk
  refine (ih.letRest (by omega) hclose hrun).prepend (x :: e :: ts) ?_
  rintro us _ ⟨b, rfl, hb⟩
  exact .binding hx he hv hb

theorem Sound.letRest_succ (ih : Sound n t k) {x : Name} {v : Term} (hk : toks.length < k + 1)
    (hclose : (headKind toks).isCloser = true)
    (h : (run n (.atom v) (.letValue x :: stack) toks).1 = .ok t) :
    Finds n t (fun ts a => ∃ b, a = .app (.abs x b) v ∧ Derives .letRest ts b) stack toks := by
  have href : ∀ tok : Token, tok.kind = headKind toks → tok.kind ∉ [.semicolon, .inWord] →
      ∃ e, step (.atom v) (.letValue x :: stack) tok = .refuse e := by
    intro tok htok hne
    simp only [List.mem_cons, List.not_mem_nil, or_false, not_or] at hne
    exact ⟨_, step_letValue_refuse x v (by rwa [htok]) hne.1 hne.2⟩
  obtain ⟨tok, toks, rfl, hkind⟩ := exists_cons_of_ok _ (by decide) href h
  have hk : toks.length < k := Nat.lt_of_succ_lt_succ hk
  have hwrap : ∀ b rest, (headKind rest).isCloser = true →
      run n (.atom b) (.letBody x v :: stack) rest = run n (.atom (.app (.abs x b) v)) stack rest :=
    fun b _ => run_letBody n x v b stack
  simp only [List.mem_cons, List.not_mem_nil, or_false] at hkind
  rcases hkind with hs | hi
  · -- behind a semicolon the body may stand or a further binding
    rw [run_shift n (step_semicolon hs x v stack)] at h
    by_cases hin : headKind toks = .inWord
    · cases toks with
      | nil => exact absurd hin (by decide)
      | cons i toks =>
        rw [run_shift n (step_semicolon_inWord hin _)] at h
        exact (ih.entry none (Nat.lt_of_succ_lt hk) h).frame [tok, i] _ hwrap
          fun _ b hb => ⟨b, rfl, .bodyAfterSemicolon hs hin hb⟩
    · rw [run_semicolon n _ hin] at h
      exact (ih.letWord hk h).frame [tok] _ hwrap fun _ b hb => ⟨b, rfl, .nextBinding hs hb⟩
  · rw [run_shift n (step_inWord hi x v stack)] at h
    exact (ih.entry none hk h).frame [tok] _ hwrap fun _ b hb => ⟨b, rfl, .body hi hb⟩

end Step

theorem sound (n : Nat) (t : Term) (k : Nat) : Sound n t k := by
  induction k with
  | zero => constructor <;> intros <;> omega
  | succ k ih =>
    exact ⟨fun _ => ih.entry_succ, ih.parameters_succ, ih.letWord_succ, ih.letRest_succ⟩

/-- A run that ends in a term has read the whole of it. -/
theorem derives_of_run {toks : List Token} (htoks : ∀ tok ∈ toks, tok.kind ≠ .endOfInput)
    (h : (run n .term [] toks).1 = .ok t) : Derives .term toks t := by
  obtain ⟨ts, rest, a, rfl, ha, hclose, hrun⟩ :=
    (sound n t (toks.length + 1)).entry none (Nat.lt_succ_self _) h
  cases rest with
  | nil =>
    have hat : a = t := Except.ok.inj hrun
    rwa [List.append_nil, ← hat]
  | cons tok rest =>
    have hkind := htoks tok (List.mem_append_right _ List.mem_cons_self)
    rw [run, step, extend_of_isCloser a hclose, close, if_neg hkind] at hrun
    exact absurd hrun (by simp)

theorem run_of_derives (n : Nat) {toks : List Token} (h : Derives .term toks t) :
    (run n .term [] toks).1 = .ok t := by
  have hread := reads_of_derives n h [] [] rfl
  rw [List.append_nil] at hread
  rw [hread]
  rfl

end Parser

/-- A source parses to a term exactly if its tokens derive the term. -/
theorem Term.parse_eq_ok_iff {s : Text} {t : Term} :
    Term.parse s = .ok t ↔ Derives .term (Lexer.ofText s).tokens t :=
  Term.parse_eq_run s ▸ ⟨Parser.derives_of_run fun _ => Lexer.kind_ne_endOfInput_of_mem_tokens,
    Parser.run_of_derives s.length⟩

end CallByValue
