import CallByValue.Proofs.Source.Machine
import CallByValue.Proofs.Source.Places

/-!
# The rules of the parser follow the machine

The parser reads tokens on demand and its rules call one another; the machine runs over a list of tokens with
a stack of its own.  Both come to the same.

* What an action comes to is told by a condition on what it gives and one on its errors, and an action
  made of two is told by its parts (`Parser.Ends`, `Parser.Ends.bind`).
* At a place of the lexer stands the parser whose current token is the next one there
  (`Parser.ofPlace`).  Reading the next token is moving to the next place, and putting the parser back is
  moving to the place before.
* An action follows the machine from a place if it moves to the place where the machine is, with the same
  term, or fails with the error of the machine and leaves the same tokens (`Parser.Follows`).  Each rule
  does, if the rule for terms does for fewer tokens; so the rule for terms does by induction
  (`Parser.follows_term`).

**Main theorem** (`Parser.parseWithin_eq_run`): the parser gives what the machine gives and leaves the same
tokens, whatever bounds their number.
-/

namespace CallByValue

namespace Parser

/-! ### What an action comes to -/

theorem run_refuse {α : Type} (x : Expected) (p : Parser) :
    (refuse x : Action α).run p = .error ⟨x, p.current⟩ p := rfl

section Ends

variable {α β : Type} {x y : Action α} {f : α → Action β} {p q : Parser} {a : α}
  {good mid : α → Parser → Prop} {good' : β → Parser → Prop} {bad : SyntaxError → Parser → Prop}

/-- What the action gives and the parser then meet one condition, its error and the parser then another. -/
structure Ends (x : Action α) (p : Parser) (good : α → Parser → Prop)
    (bad : SyntaxError → Parser → Prop) : Prop where
  /-- Where it gives something. -/
  ok {a : α} {q : Parser} (h : x.run p = .ok a q) : good a q
  /-- Where it fails. -/
  error {e : SyntaxError} {q : Parser} (h : x.run p = .error e q) : bad e q

namespace Ends

theorem of_run_eq (h : x.run p = y.run q) (hy : Ends y q good bad) : Ends x p good bad :=
  ⟨fun hx => hy.ok (h ▸ hx), fun hx => hy.error (h ▸ hx)⟩

theorem pure (h : good a p) : Ends (pure a) p good bad := by
  refine ⟨fun ha => ?_, fun he => ?_⟩
  · rw [EStateM.run_pure] at ha
    obtain ⟨rfl, rfl⟩ := EStateM.Result.ok.inj ha
    exact h
  · rw [EStateM.run_pure] at he
    cases he

theorem refuse {x : Expected} (h : bad ⟨x, p.current⟩ p) :
    Ends (refuse x : Action α) p good bad := by
  have hrun := run_refuse (α := α) x p
  refine ⟨fun ha => ?_, fun he => ?_⟩
  · rw [hrun] at ha
    cases ha
  · rw [hrun] at he
    obtain ⟨rfl, rfl⟩ := EStateM.Result.error.inj he
    exact h

theorem bind (hx : Ends x p mid bad) (hf : ∀ a q, mid a q → Ends (f a) q good' bad) :
    Ends (x >>= f) p good' bad := by
  cases hrun : x.run p with
  | ok a q =>
    refine of_run_eq ?_ (hf a q (hx.ok hrun))
    rw [EStateM.run_bind, hrun]
  | error e q =>
    have hbind : (x >>= f).run p = .error e q := by rw [EStateM.run_bind, hrun]
    refine ⟨fun ha => ?_, fun he => ?_⟩
    · rw [hbind] at ha
      cases ha
    · rw [hbind] at he
      obtain ⟨rfl, rfl⟩ := EStateM.Result.error.inj he
      exact hx.error hrun

theorem get_bind {f : Parser → Action β} (h : Ends (f p) p good' bad) :
    Ends (get >>= f) p good' bad := by
  have hrun : (get >>= f).run p = (f p).run p := rfl
  exact of_run_eq hrun h

theorem modify_bind {g : Parser → Parser} {f : PUnit → Action β} (h : Ends (f ⟨⟩) (g p) good' bad) :
    Ends (modify g >>= f) p good' bad := by
  have hrun : (modify g >>= f).run p = (f ⟨⟩).run (g p) := rfl
  exact of_run_eq hrun h

theorem advance_bind {f : Unit → Action β} (h : Ends (f ()) p.next good' bad) :
    Ends (advance >>= f) p good' bad :=
  modify_bind h

theorem advance {good : Unit → Parser → Prop} (h : good () p.next) :
    Ends advance p good bad := by
  have hrun : Parser.advance.run p = (Pure.pure () : Action Unit).run p.next := rfl
  exact of_run_eq hrun (pure h)

theorem ite {c : Prop} [Decidable c] (hx : c → Ends x p good bad) (hy : ¬ c → Ends y p good bad) :
    Ends (if c then x else y) p good bad := by
  split
  · exact hx ‹_›
  · exact hy ‹_›

theorem mono (h : Ends x p mid bad) (hgood : ∀ a q, mid a q → good a q) : Ends x p good bad :=
  ⟨fun ha => hgood _ _ (h.ok ha), h.error⟩

end Ends

end Ends

/-! ### Places -/

section Place

variable {s : Text} {l : Lexer} {m m' : Mode} {stack stack' : List Frame}

/-- The parser whose current token is the next one at a place of a source. -/
def ofPlace (s : Text) (l : Lexer) : Parser := ⟨s, l.next.2.pos, l.next.1⟩

theorem next_ofPlace (h : l.On s) : (ofPlace s l).next = ofPlace s l.next.2 := by
  obtain ⟨before, hs, hpos⟩ := h.next
  have hdrop : s.drop l.next.2.pos = l.next.2.rest := by rw [hs, hpos, List.drop_left]
  simp only [next, ofPlace, hdrop]

/-- What the machine comes to from a place on. -/
def runAt (s : Text) (m : Mode) (stack : List Frame) (l : Lexer) :
    Except SyntaxError Term × List Token :=
  run s.length m stack l.tokens

/-- The end of a source is nothing that the machine takes, so a taken token is the first of those ahead. -/
theorem tokens_of_shift (hl : l.On s) (h : step m stack l.next.1 = .shift m' stack') :
    l.tokens = l.next.1 :: l.next.2.tokens := by
  rw [Lexer.tokens, dif_neg]
  intro hend
  rw [hl.next_eq_of_kind hend] at h
  exact step_atEnd_ne_shift _ _ _ h

theorem length_of_shift (hl : l.On s) (h : step m stack l.next.1 = .shift m' stack') :
    l.tokens.length = l.next.2.tokens.length + 1 := by
  rw [tokens_of_shift hl h, List.length_cons]

theorem runAt_shift (hl : l.On s) (h : step m stack l.next.1 = .shift m' stack') :
    runAt s m stack l = runAt s m' stack' l.next.2 := by
  rw [runAt, tokens_of_shift hl h, run_shift _ h, runAt]

theorem runAt_refuse {e : Expected} (hl : l.On s) (h : step m stack l.next.1 = .refuse e) :
    runAt s m stack l = (.error ⟨e, l.next.1⟩, l.tokens) := by
  rw [hl.next_fst] at h ⊢
  rw [runAt]
  cases htoks : l.tokens with
  | nil =>
    rw [htoks] at h
    simp only [run, List.headD_nil] at h ⊢
    rw [h]
  | cons tok toks =>
    rw [htoks] at h
    simp only [run, List.headD_cons] at h ⊢
    rw [h]

theorem headKind_tokens (hl : l.On s) : headKind l.tokens = l.next.1.kind := by
  rw [hl.next_fst]
  cases l.tokens <;> rfl

end Place

/-! ### Following the machine -/

section Follows

variable {α β : Type} {s : Text} {c : Except SyntaxError Term × List Token} {l l' : Lexer}
  {x y : Action α} {f : α → Action β} {good mid : α → Lexer → Prop} {good' : β → Lexer → Prop}
  {m m' : Mode} {stack stack' : List Frame}

/-- The machine comes to `c` from the place `l`.  The action moves to a place of which `good` holds, or it
fails with the error of `c` where the tokens of `c` are left. -/
def Follows (s : Text) (c : Except SyntaxError Term × List Token) (l : Lexer) (x : Action α)
    (good : α → Lexer → Prop) : Prop :=
  Ends x (ofPlace s l) (fun a q => ∃ l', l'.On s ∧ q = ofPlace s l' ∧ good a l')
    fun e q => ∃ l', l'.On s ∧ q = ofPlace s l' ∧ c = (.error e, l'.tokens)

@[simp] theorem current_ofPlace (s : Text) (l : Lexer) : (ofPlace s l).current = l.next.1 := rfl

namespace Follows

theorem pure {a : α} (hl : l.On s) (h : good a l) : Follows s c l (pure a) good :=
  Ends.pure ⟨l, hl, rfl, h⟩

theorem refuse {e : Expected} (hl : l.On s) (hc : c = runAt s m stack l)
    (h : step m stack l.next.1 = .refuse e) : Follows s c l (refuse e) good :=
  Ends.refuse ⟨l, hl, rfl, hc.trans (runAt_refuse hl h)⟩

theorem bind (hx : Follows s c l x mid)
    (hf : ∀ a l', l'.On s → mid a l' → Follows s c l' (f a) good') :
    Follows s c l (x >>= f) good' := by
  refine Ends.bind hx ?_
  rintro a q ⟨l', hl', rfl, hmid⟩
  exact hf a l' hl' hmid

theorem mono (h : Follows s c l x mid) (hgood : ∀ a l', mid a l' → good a l') :
    Follows s c l x good :=
  Ends.mono h fun a _ ⟨l', hl', hq, hmid⟩ => ⟨l', hl', hq, hgood a l' hmid⟩

theorem get_bind {f : Parser → Action β} (h : Follows s c l (f (ofPlace s l)) good') :
    Follows s c l (get >>= f) good' :=
  Ends.get_bind h

theorem advance_bind {f : Unit → Action β} (hl : l.On s) (h : Follows s c l.next.2 (f ()) good') :
    Follows s c l (advance >>= f) good' := by
  refine Ends.advance_bind ?_
  rw [next_ofPlace hl]
  exact h

theorem ite {p : Prop} [Decidable p] (h : p → Follows s c l x good)
    (h' : ¬ p → Follows s c l y good) : Follows s c l (if p then x else y) good :=
  Ends.ite h h'

/-- The parser is put back to the place before. -/
theorem restore_bind {f : PUnit → Action β} (h : Follows s c l (f ⟨⟩) good') :
    Follows s c l' (modify (fun p => { p with
      pos := (ofPlace s l).pos, current := (ofPlace s l).current }) >>= f) good' :=
  Ends.modify_bind h

/-- A token is taken or refused as the machine does. -/
theorem take {k : Token.Kind} {e : Expected} (hl : l.On s) (hc : c = runAt s m stack l)
    (htake : l.next.1.kind = k → step m stack l.next.1 = .shift m' stack')
    (hrefuse : l.next.1.kind ≠ k → step m stack l.next.1 = .refuse e) :
    Follows s c l (take k e) fun w l' => l'.tokens.length < l.tokens.length ∧ w = l.next.1.text ∧
      c = runAt s m' stack' l' := by
  refine .get_bind ?_
  refine .ite (fun hk => ?_) fun hk => .refuse hl hc (hrefuse hk)
  have hshift := htake hk
  have hlen := length_of_shift hl hshift
  exact .advance_bind hl (.pure hl.next ⟨by omega, rfl, hc.trans (runAt_shift hl hshift)⟩)

end Follows

/-! ### The rules -/

/-- A term `t` has been read: the machine stands behind it, before a token that ends terms, and at most `n`
tokens are left. -/
structure Behind (s : Text) (c : Except SyntaxError Term × List Token) (stack : List Frame) (n : Nat)
    (t : Term) (l : Lexer) : Prop where
  /-- The tokens that are left. -/
  length : l.tokens.length ≤ n
  /-- The next token ends terms. -/
  closer : l.next.1.kind.isCloser = true
  /-- The machine is behind the term. -/
  run : c = runAt s (.atom t) stack l

/-- The action follows the machine through a term, where fewer than `n` tokens are left. -/
def FollowsTerms (s : Text) (n : Nat) (term : Action Term) : Prop :=
  ∀ {c l stack}, l.On s → l.tokens.length < n → c = runAt s .term stack l →
    Follows s c l term (Behind s c stack l.tokens.length)

theorem Behind.mono {n k : Nat} {t : Term} (hn : n ≤ k) (h : Behind s c stack n t l) :
    Behind s c stack k t l :=
  ⟨h.length.trans hn, h.closer, h.run⟩

/-- A construct that is open around a term becomes a part of the term. -/
theorem Behind.wrap {n k : Nat} {t u : Term} (h : Behind s c stack' n t l)
    (hl : l.On s) (hn : n ≤ k)
    (hwrap : ∀ {rest}, (headKind rest).isCloser = true →
      Parser.run s.length (.atom t) stack' rest = Parser.run s.length (.atom u) stack rest) :
    Behind s c stack k u l := by
  refine ⟨h.length.trans hn, h.closer, h.run.trans (hwrap ?_)⟩
  rw [headKind_tokens hl]
  exact h.closer

variable {n k : Nat} {term : Action Term} (fn : Option Term)

theorem runAt_identifier (hl : l.On s) (x : Name) (h : l.next.1.kind ≠ .colon) :
    runAt s (.identifier fn x) stack l = runAt s (.atom (applied fn (.var x))) stack l :=
  run_identifier _ fn x stack (by rwa [headKind_tokens hl])

theorem follows_atom (hterm : FollowsTerms s n term) (hl : l.On s) (hn : l.tokens.length ≤ n)
    (hcolon : l.next.1.kind = .identifier → l.next.2.next.1.kind ≠ .colon)
    (hstart : l.next.1.kind ∉ [Token.Kind.lambda, .letWord])
    (hclose : fn = none ∨ l.next.1.kind.isCloser = false) (hc : c = runAt s (entry fn) stack l) :
    Follows s c l (atom term) fun t l' => l'.tokens.length < l.tokens.length ∧
      c = runAt s (.atom (applied fn t)) stack l' := by
  refine .get_bind ?_
  simp only [current_ofPlace]
  cases hk : l.next.1.kind with
  | identifier =>
    have hshift : step (entry fn) stack l.next.1 = _ := step_entry_identifier hk
    have hlen := length_of_shift hl hshift
    refine .advance_bind hl (.pure hl.next ⟨by omega, ?_⟩)
    rw [hc, runAt_shift hl hshift, runAt_identifier fn hl.next _ (hcolon hk)]
  | leftParen =>
    have hshift : step (entry fn) stack l.next.1 = _ := step_entry_leftParen hk
    have hlen := length_of_shift hl hshift
    refine .advance_bind hl (.bind (hterm hl.next (by omega) (hc.trans (runAt_shift hl hshift))) ?_)
    intro t l₁ hl₁ ht
    refine .bind (.take hl₁ ht.run (fun hr => step_rightParen hr fn t stack)
      fun hr => step_group_refuse t ht.closer hr) ?_
    rintro w l₂ hl₂ ⟨hlt, -, hrun⟩
    have hle := ht.length
    exact .pure hl₂ ⟨by omega, hrun⟩
  | _ => exact .refuse hl hc (step_entry_refuse (by simp_all [starters]) hclose)

theorem follows_colonAbs? (hterm : FollowsTerms s n term) (hl : l.On s) (hn : l.tokens.length ≤ n)
    (hc : c = runAt s (entry fn) stack l) :
    Follows s c l (colonAbs? term) fun o l' =>
      (∀ t, o = some t → Behind s c stack l.tokens.length (applied fn t) l') ∧
      (o = none → l' = l ∧ (l.next.1.kind = .identifier → l.next.2.next.1.kind ≠ .colon)) := by
  refine .get_bind (.ite (fun (hk : l.next.1.kind = .identifier) => ?_) fun hk => ?_)
  · have hshift : step (entry fn) stack l.next.1 = _ := step_entry_identifier hk
    have hlen := length_of_shift hl hshift
    refine .advance_bind hl (.get_bind (.ite (fun (hcolon : l.next.2.next.1.kind = .colon) => ?_)
      fun hcolon => ?_))
    · have hshift' : step (.identifier fn l.next.1.text) stack _ = _ :=
        step_identifier_colon l.next.1.text hcolon
      have hlen' := length_of_shift hl.next hshift'
      have hrun : c = runAt s .term (.bind l.next.1.text :: inLastArg fn stack) l.next.2.next.2 := by
        rw [hc, runAt_shift hl hshift, runAt_shift hl.next hshift']
      refine .advance_bind hl.next (.bind (hterm hl.next.next (by omega) hrun) ?_)
      intro t l₁ hl₁ ht
      refine .pure hl₁ ⟨?_, by simp⟩
      rintro _ ⟨⟩
      refine ht.wrap hl₁ (by omega) fun hclose => ?_
      exact (run_bind _ _ t _ hclose).trans (run_inLastArg _ fn _ stack hclose)
    · exact .restore_bind (.pure hl ⟨by simp, fun _ => ⟨rfl, fun _ => hcolon⟩⟩)
  · exact .pure hl ⟨by simp, fun _ => ⟨rfl, fun hx => absurd hx hk⟩⟩

theorem follows_arguments (hterm : FollowsTerms s n term) {f : Term} (hl : l.On s)
    (hk : l.tokens.length < k) (hn : l.tokens.length < n) (hc : c = runAt s (.atom f) stack l) :
    Follows s c l (arguments term k f) (Behind s c stack l.tokens.length) := by
  -- on the rounds, each of which takes a token
  induction k generalizing f l with
  | zero => omega
  | succ k ih =>
    refine .get_bind ?_
    simp only [current_ofPlace]
    cases hkind : l.next.1.kind with
    | endOfInput | rightParen | semicolon | inWord =>
      exact .pure hl ⟨Nat.le_refl _, by rw [hkind]; rfl, hc⟩
    | lambda | letWord =>
      have hrun : c = runAt s .term (.lastArg f :: stack) l :=
        hc.trans (run_lastArg _ f stack (by simp [headKind_tokens hl, hkind]))
      refine .bind (hterm hl hn hrun) ?_
      intro t l₁ hl₁ ht
      refine .pure hl₁ (ht.wrap hl₁ (Nat.le_refl _) fun hclose => ?_)
      exact run_inLastArg _ (some f) t stack hclose
    | identifier | leftParen | colon | equals | dot =>
      refine .bind (follows_colonAbs? (some f) hterm hl hn.le hc) ?_
      rintro (_ | a) l₁ hl₁ ⟨hsome, hnone⟩
      · obtain ⟨rfl, hcolon⟩ := hnone rfl
        have hclose : l₁.next.1.kind.isCloser = false := by rw [hkind]; rfl
        refine .bind (follows_atom (some f) hterm hl hn.le hcolon (by simp [hkind]) (.inr hclose) hc) ?_
        rintro a l₂ hl₂ ⟨hlt, hrun⟩
        exact Follows.mono (ih hl₂ (by omega) (by omega) hrun) fun t l₃ => Behind.mono hlt.le
      · exact .pure hl₁ (hsome a rfl)

theorem follows_names (hl : l.On s) (hk : l.tokens.length < k)
    (hm : m ∈ [Mode.lambda, .parameters]) (hc : c = runAt s m stack l) :
    Follows s c l (names k) fun xs l' => l'.next.1.kind ≠ .identifier ∧
      l'.tokens.length ≤ l.tokens.length ∧
      c = runAt s (if xs.isEmpty then m else .parameters)
        (xs.foldl (fun st x => .bind x :: st) stack) l' := by
  induction k generalizing l m stack with
  | zero => omega
  | succ k ih =>
    refine .get_bind (.ite (fun (hx : l.next.1.kind = .identifier) => ?_) fun hx => ?_)
    · have hshift := step_param hx hm stack
      have hlen := length_of_shift hl hshift
      refine .advance_bind hl (.bind (ih hl.next (by omega) (by simp)
        (hc.trans (runAt_shift hl hshift))) ?_)
      rintro xs l₁ hl₁ ⟨hstop, hle, hrun⟩
      rw [ite_self] at hrun
      exact .pure hl₁ ⟨hstop, by omega, hrun⟩
    · exact .pure hl ⟨hx, Nat.le_refl _, hc⟩

theorem follows_lambda (hterm : FollowsTerms s n term) (hl : l.On s) (hk : l.next.1.kind = .lambda)
    (hn : l.tokens.length ≤ n) (hc : c = runAt s .term stack l) :
    Follows s c l (lambda term n) (Behind s c stack l.tokens.length) := by
  have hshift : step (entry none) stack l.next.1 = _ := step_entry_lambda hk
  have hlen := length_of_shift hl hshift
  refine .advance_bind hl (.bind (follows_names hl.next (by omega) (by simp)
    (hc.trans (runAt_shift hl hshift))) ?_)
  rintro xs l₁ hl₁ ⟨hstop, hle, hrun⟩
  refine .ite (fun hnil => ?_) fun hnil => ?_
  · rw [if_pos hnil] at hrun
    exact .refuse hl₁ hrun (step_lambda_refuse hstop)
  · rw [if_neg hnil] at hrun
    refine .bind (.take hl₁ hrun (fun hd => step_dot hd _) (step_parameters_refuse hstop)) ?_
    rintro w l₂ hl₂ ⟨hlt, -, hrun⟩
    refine .bind (hterm hl₂ (by omega) hrun) ?_
    intro t l₃ hl₃ ht
    exact .pure hl₃ (ht.wrap hl₃ (by omega) (run_foldl_bind _ xs t stack))

theorem follows_bindings (hterm : FollowsTerms s n term) (hl : l.On s) (hk : l.tokens.length < k)
    (hn : l.tokens.length < n) (hc : c = runAt s .letWord stack l) :
    Follows s c l (bindings term k) fun bs l' => l'.tokens.length < l.tokens.length ∧
      c = runAt s .term (bs.foldl (fun st b => .letBody b.1 b.2 :: st) stack) l' := by
  induction k generalizing l stack with
  | zero => omega
  | succ k ih =>
    refine .bind (.take hl hc (fun hx => step_binding hx (by simp) stack) step_letWord_refuse) ?_
    rintro x l₁ hl₁ ⟨hlt₁, rfl, hrun₁⟩
    refine .bind (.take hl₁ hrun₁ (fun he => step_equals he _ stack) (step_letName_refuse _)) ?_
    rintro w l₂ hl₂ ⟨hlt₂, -, hrun₂⟩
    refine .bind (hterm hl₂ (by omega) hrun₂) ?_
    intro v l₃ hl₃ hv
    have hle₃ := hv.length
    refine .get_bind ?_
    simp only [current_ofPlace]
    cases hkind : l₃.next.1.kind with
    | semicolon =>
      have hshift := step_semicolon hkind l.next.1.text v stack
      have hlen := length_of_shift hl₃ hshift
      have hrun₃ := hv.run.trans (runAt_shift hl₃ hshift)
      refine .advance_bind hl₃ (.get_bind (.ite
        (fun (hin : l₃.next.2.next.1.kind = .inWord) => ?_) fun hin => ?_))
      · have hshift' := step_semicolon_inWord hin (.letBody l.next.1.text v :: stack)
        have hlen' := length_of_shift hl₃.next hshift'
        exact .advance_bind hl₃.next (.pure hl₃.next.next
          ⟨by omega, hrun₃.trans (runAt_shift hl₃.next hshift')⟩)
      · have hmore := hrun₃.trans (run_semicolon _ _ (by rwa [headKind_tokens hl₃.next]))
        refine .bind (ih hl₃.next (by omega) (by omega) hmore) ?_
        rintro bs l₄ hl₄ ⟨hlt₄, hrun₄⟩
        exact .pure hl₄ ⟨by omega, hrun₄⟩
    | inWord =>
      have hshift := step_inWord hkind l.next.1.text v stack
      have hlen := length_of_shift hl₃ hshift
      exact .advance_bind hl₃ (.pure hl₃.next ⟨by omega, hv.run.trans (runAt_shift hl₃ hshift)⟩)
    | _ =>
      exact .refuse hl₃ hv.run
        (step_letValue_refuse _ v hv.closer (by simp [hkind]) (by simp [hkind]))

theorem follows_letIn (hterm : FollowsTerms s n term) (hl : l.On s) (hk : l.next.1.kind = .letWord)
    (hn : l.tokens.length ≤ n) (hc : c = runAt s .term stack l) :
    Follows s c l (letIn term n) (Behind s c stack l.tokens.length) := by
  have hshift : step (entry none) stack l.next.1 = _ := step_entry_letWord hk
  have hlen := length_of_shift hl hshift
  refine .advance_bind hl (.bind (follows_bindings hterm hl.next (by omega) (by omega)
    (hc.trans (runAt_shift hl hshift))) ?_)
  rintro bs l₁ hl₁ ⟨hlt, hrun⟩
  refine .bind (hterm hl₁ (by omega) hrun) ?_
  intro t l₂ hl₂ ht
  exact .pure hl₂ (ht.wrap hl₂ (by omega) (run_foldl_letBody _ bs t stack))

theorem follows_term (n : Nat) : FollowsTerms s n (Parser.term n) := by
  induction n with
  | zero =>
    intro c l stack _ hn
    omega
  | succ n ih =>
    intro c l stack hl hn hc
    have hn : l.tokens.length ≤ n := Nat.le_of_lt_succ hn
    refine .get_bind ?_
    simp only [current_ofPlace]
    cases hkind : l.next.1.kind with
    | letWord => exact follows_letIn ih hl hkind hn hc
    | lambda => exact follows_lambda ih hl hkind hn hc
    | _ =>
      refine .bind (follows_colonAbs? none ih hl hn hc) ?_
      rintro (_ | t) l₁ hl₁ ⟨hsome, hnone⟩
      · obtain ⟨rfl, hcolon⟩ := hnone rfl
        refine .bind (follows_atom none ih hl hn hcolon (by simp [hkind]) (.inl rfl) hc) ?_
        rintro f l₂ hl₂ ⟨hlt, hrun⟩
        exact Follows.mono (follows_arguments ih hl₂ (by omega) (by omega) hrun)
          fun t l₃ => Behind.mono hlt.le
      · exact .pure hl₁ (hsome t rfl)

theorem follows_source (hl : l.On s) (hn : l.tokens.length < n) :
    Follows s (runAt s .term [] l) l (source n) fun t l' =>
      runAt s .term [] l = (.ok t, l'.tokens) := by
  refine .bind (follows_term n hl hn rfl) ?_
  intro t l₁ hl₁ ht
  have hstep : step (.atom t) [] l₁.next.1 = close l₁.next.1.kind [] t :=
    extend_of_isCloser t ht.closer
  refine .get_bind (.ite (fun (hend : l₁.next.1.kind = .endOfInput) => ?_)
    fun (hend : l₁.next.1.kind ≠ .endOfInput) => ?_)
  · refine .pure hl₁ (ht.run.trans ?_)
    rw [close, if_pos hend, hl₁.next_eq_of_kind hend] at hstep
    have hnil : l₁.tokens = [] := by rw [Lexer.tokens, dif_pos hend]
    rw [runAt, hnil, run, hstep]
  · rw [close, if_neg hend] at hstep
    exact .refuse hl₁ ht.run hstep

end Follows

/-! ### The whole source -/

section Source

variable {s : Text} {l l' : Lexer} {n k : Nat}

/-- A parser is told by the tokens ahead. -/
theorem ofPlace_congr (hl : l.On s) (hl' : l'.On s) (h : l.tokens = l'.tokens) :
    ofPlace s l = ofPlace s l' := by
  have hfst : l.next.1 = l'.next.1 := by rw [hl.next_fst, hl'.next_fst, h]
  obtain ⟨-, -, -, hpos⟩ := l.exists_layout
  obtain ⟨-, -, -, hpos'⟩ := l'.exists_layout
  rw [ofPlace, ofPlace, hpos, hpos', hfst]

theorem exists_parseWithin (hl : l.On s) (hn : l.tokens.length < n) : ∃ l', l'.On s ∧
    l'.tokens = (runAt s .term [] l).2 ∧
    parseWithin n (ofPlace s l) = ((runAt s .term [] l).1, ofPlace s l') := by
  have hsource := follows_source hl hn
  cases hrun : (source n).run (ofPlace s l) with
  | ok t q =>
    obtain ⟨l', hl', rfl, hmachine⟩ := hsource.ok hrun
    exact ⟨l', hl', by rw [hmachine], by rw [parseWithin, hrun, hmachine]⟩
  | error e q =>
    obtain ⟨l', hl', rfl, hmachine⟩ := hsource.error hrun
    exact ⟨l', hl', by rw [hmachine], by rw [parseWithin, hrun, hmachine]⟩

/-- **The parser does what the machine does**: it gives the same and leaves the same tokens.  The bound on
the number of tokens does not matter. -/
theorem parseWithin_eq_run (hl : l.On s) : ∃ l', l'.On s ∧ l'.tokens = (runAt s .term [] l).2 ∧
    ∀ n, l.tokens.length < n →
      parseWithin n (ofPlace s l) = ((runAt s .term [] l).1, ofPlace s l') := by
  obtain ⟨l', hl', htokens, -⟩ := exists_parseWithin hl (Nat.lt_succ_self _)
  refine ⟨l', hl', htokens, fun n hn => ?_⟩
  obtain ⟨l'', hl'', htokens', hparse⟩ := exists_parseWithin hl hn
  rw [hparse, ofPlace_congr hl'' hl' (htokens'.trans htokens.symm)]

theorem fst_parse_ofPlace (hl : l.On s) : (ofPlace s l).parse.1 = (runAt s .term [] l).1 := by
  obtain ⟨l', -, -, hparse⟩ := parseWithin_eq_run hl
  have hlen : l.tokens.length < s.length + 1 := by
    obtain ⟨before, hs, -⟩ := hl
    have hle := l.length_tokens_le
    rw [hs, List.length_append]
    omega
  exact congrArg Prod.fst (hparse _ hlen)

end Source

end Parser

/-- What a source spells is what the machine reads from its tokens. -/
theorem Term.parse_eq_run (s : Text) :
    Term.parse s = (Parser.run s.length .term [] (Lexer.ofText s).tokens).1 :=
  Parser.fst_parse_ofPlace (Lexer.on_ofText s)

end CallByValue
