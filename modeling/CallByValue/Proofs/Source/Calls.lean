import CallByValue.Proofs.Source.Parse
import CallByValue.Proofs.Source.Readings
import Mathlib.Algebra.BigOperators.Group.Finset.Basic
import Mathlib.Logic.Function.Iterate

/-!
# Parsing again

A parser can be called again after a success or an error (`Parser.after`, `Parser.result`).  Then it stands
wherever the call before has left it, in the middle of a construct perhaps.

* What reading a token keeps, every rule of the parser keeps, through each of its errors and where it is put
  back (`Parser.Keeps`, `Parser.keeps_term`).  So a call leaves the parser where some number of readings take
  it (`Parser.exists_iterate_parse`), and an error is about the token at which it leaves it.
* After a success the end of the source is the current token, and there a call fails and changes nothing
  (`Parser.kind_parse_of_ok`, `Parser.parse_of_end`).
* Readings of the parser are readings of the lexer (`Parser.iterate_next_ofText`).

**Main theorem** (`Parser.calls_resume`): any number of calls walk through the tokens of a source without
going back, and each gives what the tokens from its start on determine.
-/

namespace CallByValue

namespace Parser

/-! ### What every rule keeps -/

section Keeps

variable {α β : Type} {P : Parser → Prop} {x y : Action α} {f : α → Action β} {term : Action Term}
  {n : Nat} {p : Parser}

/-- The action leaves the parser with the property `P` if it had it before, also where it fails; an error is
about the token that is current then. -/
def Keeps (P : Parser → Prop) (x : Action α) : Prop :=
  ∀ p, P p → Ends x p (fun _ q => P q) fun e q => P q ∧ e.found = q.current

namespace Keeps

theorem pure {a : α} : Keeps P (pure a) := fun _ hp => Ends.pure hp

theorem refuse {e : Expected} : Keeps P (refuse e : Action α) := fun _ hp => Ends.refuse ⟨hp, rfl⟩

theorem bind (hx : Keeps P x) (hf : ∀ a, Keeps P (f a)) : Keeps P (x >>= f) :=
  fun p hp => (hx p hp).bind fun a q hq => hf a q hq

theorem get_bind {f : Parser → Action β} (hf : ∀ p, Keeps P (f p)) : Keeps P (get >>= f) :=
  fun p hp => Ends.get_bind (hf p p hp)

theorem ite {c : Prop} [Decidable c] (hx : Keeps P x) (hy : Keeps P y) :
    Keeps P (if c then x else y) :=
  fun p hp => Ends.ite (fun _ => hx p hp) fun _ => hy p hp

end Keeps

variable (hP : ∀ p, P p → P p.next)

include hP

theorem keeps_advance : Keeps P advance :=
  fun p hp => Ends.advance (hP p hp)

theorem keeps_take (k : Token.Kind) (e : Expected) : Keeps P (take k e) :=
  .get_bind fun _ => .ite ((keeps_advance hP).bind fun _ => .pure) .refuse

theorem keeps_atom (hterm : Keeps P term) : Keeps P (atom term) := by
  refine .get_bind fun p => ?_
  dsimp only
  cases p.current.kind with
  | identifier => exact (keeps_advance hP).bind fun _ => .pure
  | leftParen =>
    refine (keeps_advance hP).bind fun _ => hterm.bind fun t => ?_
    exact (keeps_take hP _ _).bind fun _ => .pure
  | _ => exact .refuse

theorem keeps_colonAbs? (hterm : Keeps P term) : Keeps P (colonAbs? term) := by
  intro p hp
  have hnext := hP p hp
  refine Ends.get_bind (Ends.ite (fun _ => Ends.advance_bind (Ends.get_bind ?_)) fun _ => Ends.pure hp)
  refine Ends.ite (fun _ => Ends.advance_bind ?_) fun _ => ?_
  · exact hterm.bind (fun _ => .pure) p.next.next (hP p.next hnext)
  · -- the source is the same, so the offset and the token make the parser what it was
    have hrestored : { p.next with pos := p.pos, current := p.current } = p := rfl
    exact Ends.modify_bind (Ends.pure (hrestored ▸ hp))

theorem keeps_arguments (hterm : Keeps P term) (t : Term) : Keeps P (arguments term n t) := by
  induction n generalizing t with
  | zero => exact .refuse
  | succ n ih =>
    refine .get_bind fun p => ?_
    cases p.current.kind with
    | endOfInput | rightParen | semicolon | inWord => exact .pure
    | lambda | letWord => exact hterm.bind fun _ => .pure
    | identifier | leftParen | colon | equals | dot =>
      refine (keeps_colonAbs? hP hterm).bind fun o => ?_
      cases o with
      | some a => exact .pure
      | none => exact (keeps_atom hP hterm).bind fun a => ih _

theorem keeps_names : Keeps P (names n) := by
  induction n with
  | zero => exact .pure
  | succ n ih =>
    exact .get_bind fun _ => .ite ((keeps_advance hP).bind fun _ => ih.bind fun _ => .pure) .pure

theorem keeps_lambda (hterm : Keeps P term) : Keeps P (lambda term n) := by
  refine (keeps_advance hP).bind fun _ => (keeps_names hP).bind fun xs => .ite .refuse ?_
  exact (keeps_take hP _ _).bind fun _ => hterm.bind fun _ => .pure

theorem keeps_bindings (hterm : Keeps P term) : Keeps P (bindings term n) := by
  induction n with
  | zero => exact .refuse
  | succ n ih =>
    refine (keeps_take hP _ _).bind fun x => (keeps_take hP _ _).bind fun _ => hterm.bind fun v => ?_
    refine .get_bind fun p => ?_
    cases p.current.kind with
    | semicolon =>
      refine (keeps_advance hP).bind fun _ => .get_bind fun q => .ite ?_ (ih.bind fun _ => .pure)
      exact (keeps_advance hP).bind fun _ => .pure
    | inWord => exact (keeps_advance hP).bind fun _ => .pure
    | _ => exact .refuse

theorem keeps_letIn (hterm : Keeps P term) : Keeps P (letIn term n) :=
  (keeps_advance hP).bind fun _ => (keeps_bindings hP hterm).bind fun _ => hterm.bind fun _ => .pure

/-- **What reading a token keeps, the parser keeps**, however deep it stands in a term when it fails. -/
theorem keeps_term (n : Nat) : Keeps P (Parser.term n) := by
  induction n with
  | zero => exact .refuse
  | succ n ih =>
    refine .get_bind fun p => ?_
    cases p.current.kind with
    | letWord => exact keeps_letIn hP ih
    | lambda => exact keeps_lambda hP ih
    | _ =>
      refine (keeps_colonAbs? hP ih).bind fun o => ?_
      cases o with
      | some t => exact .pure
      | none => exact (keeps_atom hP ih).bind fun f => keeps_arguments hP ih f

theorem keeps_source (n : Nat) : Keeps P (source n) :=
  (keeps_term hP n).bind fun _ => .get_bind fun _ => .ite .pure .refuse

end Keeps

/-! ### One call -/

section Call

variable {p : Parser} {t : Term} {e : SyntaxError}

theorem Ends.parse {good : Term → Parser → Prop} {bad : SyntaxError → Parser → Prop}
    (h : Ends (source (p.input.length + 1)) p good bad) :
    (∀ t, p.parse.1 = .ok t → good t p.parse.2) ∧ ∀ e, p.parse.1 = .error e → bad e p.parse.2 := by
  rw [Parser.parse, parseWithin]
  cases hrun : (source (p.input.length + 1)).run p with
  | ok t q =>
    refine ⟨fun u hu => ?_, fun e he => by simp at he⟩
    rw [← Except.ok.inj hu]
    exact h.ok hrun
  | error d q =>
    refine ⟨fun u hu => by simp at hu, fun e he => ?_⟩
    rw [← Except.error.inj he]
    exact h.error hrun

/-- A call leaves the parser some readings further, if any. -/
theorem exists_iterate_parse (p : Parser) : ∃ k, p.parse.2 = next^[k] p := by
  have hnext (q : Parser) (hq : ∃ k, q = next^[k] p) : ∃ k, q.next = next^[k] p := by
    obtain ⟨k, rfl⟩ := hq
    exact ⟨k + 1, (Function.iterate_succ_apply' next k p).symm⟩
  obtain ⟨hok, herror⟩ := Ends.parse (keeps_source hnext _ p ⟨0, rfl⟩)
  cases h : p.parse.1 with
  | ok t => exact hok t h
  | error e => exact (herror e h).1

/-- An error is about the token that the next call starts with. -/
theorem found_of_parse (h : p.parse.1 = .error e) : e.found = p.parse.2.current :=
  ((Ends.parse (keeps_source (P := fun _ => True) (fun _ _ => trivial) _ p trivial)).2 e h).2

/-- A call succeeds only at the end of the source. -/
theorem kind_parse_of_ok (h : p.parse.1 = .ok t) : p.parse.2.current.kind = .endOfInput := by
  have hends (n : Nat) :
      Ends (source n) p (fun _ q => q.current.kind = .endOfInput) fun _ _ => True := by
    have hterm : Ends (term n) p (fun _ _ => True) fun _ _ => True :=
      ⟨fun _ => trivial, fun _ => trivial⟩
    refine hterm.bind fun t q _ => Ends.get_bind (Ends.ite (fun hend => ?_) fun _ => ?_)
    · exact Ends.pure hend
    · exact Ends.refuse trivial
  exact (Ends.parse (hends _)).1 t h

/-- At the end of the source a call fails and changes nothing. -/
theorem parse_of_end (h : p.current.kind = .endOfInput) : p.parse = (.error ⟨.term, p.current⟩, p) := by
  have hrun (n : Nat) : (source (n + 1)).run p = .error ⟨.term, p.current⟩ p := by
    simp [source, term, colonAbs?, atom, run_refuse, h]
  rw [parse, parseWithin, hrun]

end Call

/-! ### Calls -/

/-- The parser after `k` calls. -/
def after (p : Parser) : Nat → Parser
  | 0 => p
  | k + 1 => (p.after k).parse.2

/-- The result of the call after `k` calls. -/
def result (p : Parser) (k : Nat) : Except SyntaxError Term := (p.after k).parse.1

variable {s : Text} {p : Parser} {j k n : Nat} {t : Term} {e : SyntaxError}

/-- **Any number of calls** leave the parser where some number of readings take it, and the number never
decreases. -/
theorem exists_iterate_after (p : Parser) :
    ∃ m : Nat → Nat, m 0 = 0 ∧ Monotone m ∧ ∀ k, p.after k = next^[m k] p := by
  choose taken htaken using fun k => exists_iterate_parse (p.after k)
  refine ⟨fun k => ∑ i ∈ Finset.range k, taken i, rfl, ?_, fun k => ?_⟩
  · refine monotone_nat_of_le_succ fun k => ?_
    rw [Finset.sum_range_succ]
    exact Nat.le_add_right _ _
  · induction k with
    | zero => rfl
    | succ k ih =>
      rw [after, htaken, ih]
      simp only [Finset.sum_range_succ]
      rw [Nat.add_comm, Function.iterate_add_apply]

/-- Once the end is the current token, calls fail and change nothing. -/
theorem after_of_end (h : (p.after j).current.kind = .endOfInput) (hjk : j ≤ k) :
    p.after k = p.after j := by
  induction k, hjk using Nat.le_induction with
  | base => rfl
  | succ k _ ih => rw [after, ih, parse_of_end h]

/-- After a success every call fails at the end. -/
theorem result_of_ok (hjk : j < k) (h : p.result j = .ok t) :
    p.result k = .error ⟨.term, (p.after (j + 1)).current⟩ := by
  have hend : (p.after (j + 1)).current.kind = .endOfInput := kind_parse_of_ok h
  rw [result, after_of_end hend hjk, parse_of_end hend]

theorem eq_of_result_ok {u : Term} (hj : p.result j = .ok t) (hk : p.result k = .ok u) : j = k := by
  rcases Nat.lt_trichotomy j k with hlt | heq | hlt
  · rw [result_of_ok hlt hj] at hk
    exact absurd hk (by simp)
  · exact heq
  · rw [result_of_ok hlt hk] at hj
    exact absurd hj (by simp)

/-! ### Readings -/

/-- Reading on demand is reading from the start. -/
theorem iterate_next_ofText (s : Text) (n : Nat) :
    next^[n] (ofText s) = ofPlace s ((Lexer.ofText s).after n) := by
  induction n with
  | zero => rfl
  | succ n ih =>
    rw [Function.iterate_succ_apply', ih, next_ofPlace ((Lexer.on_ofText s).after n), Lexer.after]

theorem current_iterate_next (s : Text) (n : Nat) :
    (next^[n] (ofText s)).current = (Lexer.ofText s).reading n := by
  rw [iterate_next_ofText, current_ofPlace, Lexer.reading]

/-- The end is read where the source ends. -/
theorem pos_current_of_end (h : (next^[n] (ofText s)).current.kind = .endOfInput) :
    (next^[n] (ofText s)).current.pos = s.length := by
  rw [iterate_next_ofText, current_ofPlace] at h ⊢
  rw [((Lexer.on_ofText s).after n).next_eq_of_kind h]
  rfl

/-! ### What a call depends on -/

/-- Tokens and the end after them are told by what stands at each place, where the end stands behind all
tokens. -/
theorem eq_of_getD_eq {ts us : List Token} {a b : Nat} (hts : ∀ tok ∈ ts, tok.kind ≠ .endOfInput)
    (hus : ∀ tok ∈ us, tok.kind ≠ .endOfInput)
    (h : ∀ i, ts.getD i (.atEnd a) = us.getD i (.atEnd b)) : ts = us ∧ a = b := by
  induction ts generalizing us with
  | nil =>
    cases us with
    | nil => exact ⟨rfl, congrArg Token.pos (h 0)⟩
    | cons u us => exact absurd (congrArg Token.kind (h 0)).symm (hus u List.mem_cons_self)
  | cons t ts ih =>
    cases us with
    | nil => exact absurd (congrArg Token.kind (h 0)) (hts t List.mem_cons_self)
    | cons u us =>
      obtain ⟨hrest, hend⟩ := ih (List.forall_mem_cons.1 hts).2 (List.forall_mem_cons.1 hus).2
        fun i => h (i + 1)
      exact ⟨List.cons_eq_cons.2 ⟨h 0, hrest⟩, hend⟩

/-- Where the same tokens are read from now on, a call gives the same, whatever the source. -/
theorem parse_congr {s' : Text} {n' : Nat}
    (h : ∀ i, (next^[i] (next^[n] (ofText s))).current = (next^[i] (next^[n'] (ofText s'))).current) :
    (next^[n] (ofText s)).parse.1 = (next^[n'] (ofText s')).parse.1 := by
  have hgetD (s : Text) (n i : Nat) : (next^[i] (next^[n] (ofText s))).current =
      ((Lexer.ofText s).after n).tokens.getD i (.atEnd s.length) := by
    rw [← Function.iterate_add_apply, current_iterate_next, Lexer.reading_eq_getD,
      (Lexer.on_ofText s).tokens_after, List.getD_eq_getElem?_getD, List.getD_eq_getElem?_getD,
      List.getElem?_drop, Nat.add_comm]
  simp only [hgetD] at h
  obtain ⟨htokens, hlength⟩ := eq_of_getD_eq (fun _ => Lexer.kind_ne_endOfInput_of_mem_tokens)
    (fun _ => Lexer.kind_ne_endOfInput_of_mem_tokens) h
  rw [iterate_next_ofText, iterate_next_ofText, fst_parse_ofPlace ((Lexer.on_ofText s).after n),
    fst_parse_ofPlace ((Lexer.on_ofText s').after n'), runAt, runAt, htokens, hlength]

theorem parse_eq_ok_iff : (next^[n] (ofText s)).parse.1 = .ok t ↔
    Derives .term ((Lexer.ofText s).after n).tokens t := by
  rw [iterate_next_ofText, fst_parse_ofPlace ((Lexer.on_ofText s).after n)]
  exact ⟨derives_of_run fun _ => Lexer.kind_ne_endOfInput_of_mem_tokens, run_of_derives s.length⟩

/-- **Parsing again.**  After `k` calls the state of a parser, its offset and its current token, is what `m k`
readings make of the state at the start, where one token has been read.  The number never decreases.  What a
call gives is determined by the tokens that are read from its start on, and it is a term exactly if these
derive it.  Errors never lie before earlier ones.  At most one call succeeds, and every call after it fails
at the end of the source. -/
theorem calls_resume :
    ∃ verdict : (Nat → Token) → Except SyntaxError Term, ∀ s : Text,
      let l := Lexer.ofText s
      let p := Parser.ofText s
      ∃ m : Nat → Nat, m 0 = 0 ∧ Monotone m ∧
        (∀ k, p.after k = next^[m k] p ∧
          p.after k = ⟨s, (l.after (m k + 1)).pos, l.reading (m k)⟩) ∧
        (∀ k, p.result k = verdict fun i => (next^[i] (p.after k)).current) ∧
        (∀ k t, p.result k = .ok t ↔ Derives .term (l.after (m k)).tokens t) ∧
        (∀ j k d e, j ≤ k → p.result j = .error d → p.result k = .error e → d.pos ≤ e.pos) ∧
        (∀ j k t u, p.result j = .ok t → p.result k = .ok u → j = k) ∧
        ∀ j k t, j < k → p.result j = .ok t → ∃ e, p.result k = .error e ∧ e.pos = s.length := by
  -- the results are a function of the readings because equal readings make equal results
  have hfactors : Function.FactorsThrough
      (fun c : Text × Nat => (next^[c.2] (ofText c.1)).parse.1)
      fun c i => (next^[i] (next^[c.2] (ofText c.1))).current :=
    fun c c' h => parse_congr fun i => congrFun h i
  obtain ⟨verdict, hverdict⟩ := (Function.factorsThrough_iff _).1 hfactors
  refine ⟨verdict, fun s => ?_⟩
  intro l p
  obtain ⟨m, hzero, hmono, hafter⟩ := exists_iterate_after p
  have herror {k : Nat} {e : SyntaxError} (h : p.result k = .error e) :
      e.pos = (l.reading (m (k + 1))).pos := by
    have hfound : e.found = (p.after (k + 1)).current := found_of_parse h
    rw [SyntaxError.pos, hfound, hafter, current_iterate_next]
  refine ⟨m, hzero, hmono, fun k => ⟨hafter k, ?_⟩, fun k => ?_, fun k t => ?_, ?_,
    fun j k t u => eq_of_result_ok, fun j k t hjk h => ⟨_, result_of_ok hjk h, ?_⟩⟩
  · rw [hafter, iterate_next_ofText]
    rfl
  · rw [result, hafter]
    exact congrFun hverdict (s, m k)
  · rw [result, hafter, parse_eq_ok_iff]
  · intro j k d e hjk hd he
    rw [herror hd, herror he]
    exact Lexer.monotone_pos_reading _ (hmono (Nat.succ_le_succ hjk))
  · have hend : (p.after (j + 1)).current.kind = .endOfInput := kind_parse_of_ok h
    rw [hafter] at hend
    rw [hafter]
    exact pos_current_of_end hend

/-- A lambda in place of a parameter: the first call fails there, the second reads the abstraction behind
it, and the third fails at the end. -/
theorem calls_resume_at_second_lambda :
    let p := Parser.ofText (utf8 "\\\\ y. y z")
    let t : Term := .abs (utf8 "y") (.app (.var (utf8 "y")) (.var (utf8 "z")))
    p.result 0 = .error ⟨.parameter, ⟨.lambda, utf8 "\\", 1⟩⟩ ∧ p.result 1 = .ok t ∧
      ∃ e, p.result 2 = .error e ∧ e.pos = 9 := by
  intro p t
  have hfirst : p.result 0 = .error ⟨.parameter, ⟨.lambda, utf8 "\\", 1⟩⟩ := by decide +kernel
  have hsecond : p.result 1 = .ok t := by decide +kernel
  obtain ⟨verdict, hall⟩ := calls_resume
  obtain ⟨m, -, -, -, -, -, -, -, hlater⟩ := hall (utf8 "\\\\ y. y z")
  exact ⟨hfirst, hsecond, hlater 1 2 t (by decide) hsecond⟩

end Parser

end CallByValue
