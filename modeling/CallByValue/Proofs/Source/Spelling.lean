import CallByValue.Proofs.Source.Parse

/-!
# The notation and its trees

The notation of terms as it is written down for readers, with repetitions and optional parts:

* `Term ::= Tail | App`
* `App ::= Atom {Atom} [Tail]`, which applies to the left, to the tail last
* `Tail ::= Ident ':' Term | Lambda | Let`
* `Atom ::= Ident | '(' Term ')'`
* `Lambda ::= lambda Ident+ '.' Term`, which is an abstraction for each parameter
* `Let ::= 'let' Ident '=' Term {';' Ident '=' Term} [';'] 'in' Term`, which applies, for each
  binding, an abstraction to the value

A repetition spells a list, and the tree of a phrase is built from the lists in one go
(`Term.underParams`, `Term.underBindings`, a fold over the arguments).

The phrases of `Derives` take repetitions apart one member at a time.  Both spell the same terms
(`derives_iff_spells`), so the parser accepts exactly this notation and builds exactly its trees
(`Term.parse_iff_spells`).
-/

namespace CallByValue

namespace Term

/-- The body of a lambda under its parameters, the first one outermost. -/
def underParams (xs : List Name) (b : Term) : Term := xs.foldr abs b

/-- The body of a `let` under its bindings, the first one outermost. -/
def underBindings (bs : List (Name × Term)) (b : Term) : Term :=
  bs.foldr (fun p t => app (abs p.1 t) p.2) b

end Term

/-- The forms of the notation. -/
inductive Form where
  /-- An identifier or a term in parentheses. -/
  | atom
  /-- Any number of atoms. -/
  | args
  /-- An abstraction or a `let`. -/
  | tail
  /-- A whole term. -/
  | term
  /-- The bindings of a `let`, separated by semicolons. -/
  | bindings
  deriving DecidableEq, Repr

/-- What a form spells. -/
def Form.Tree : Form → Type
  | .args => List Term
  | .bindings => List (Name × Term)
  | _ => Term

/-- The tokens spell the tree in the form. -/
inductive Spells : (p : Form) → List Token → p.Tree → Prop where
  | var {x : Token} : x.kind = .identifier → Spells .atom [x] (Term.var x.text)
  | paren {l r : Token} {ts : List Token} {t : Term} : l.kind = .leftParen → Spells .term ts t →
      r.kind = .rightParen → Spells .atom (l :: (ts ++ [r])) t
  | noArg : Spells .args [] ([] : List Term)
  | arg {ts us : List Token} {a : Term} {as : List Term} : Spells .atom ts a →
      Spells .args us as → Spells .args (ts ++ us) (a :: as)
  | colon {x c : Token} {ts : List Token} {t : Term} : x.kind = .identifier → c.kind = .colon →
      Spells .term ts t → Spells .tail (x :: c :: ts) (Term.abs x.text t)
  | lambda {l d : Token} {xs ts : List Token} {t : Term} : l.kind = .lambda → xs ≠ [] →
      (∀ x ∈ xs, x.kind = .identifier) → d.kind = .dot → Spells .term ts t →
      Spells .tail (l :: (xs ++ d :: ts)) (Term.underParams (xs.map Token.text) t)
  | letIn {l i : Token} {s : Option Token} {ts us : List Token} {bs : List (Name × Term)}
      {t : Term} : l.kind = .letWord → Spells .bindings ts bs → (∀ c ∈ s, c.kind = .semicolon) →
      i.kind = .inWord → Spells .term us t →
      Spells .tail (l :: (ts ++ (s.toList ++ i :: us))) (Term.underBindings bs t)
  | binding {x e : Token} {ts : List Token} {v : Term} : x.kind = .identifier → e.kind = .equals →
      Spells .term ts v → Spells .bindings (x :: e :: ts) [(x.text, v)]
  | bindings {x e s : Token} {ts us : List Token} {v : Term} {bs : List (Name × Term)} :
      x.kind = .identifier → e.kind = .equals → Spells .term ts v → s.kind = .semicolon →
      Spells .bindings us bs → Spells .bindings (x :: e :: (ts ++ s :: us)) ((x.text, v) :: bs)
  | ofTail {ts : List Token} {t : Term} : Spells .tail ts t → Spells .term ts t
  | app {ts us : List Token} {f : Term} {as : List Term} : Spells .atom ts f →
      Spells .args us as → Spells .term (ts ++ us) (as.foldl Term.app f)
  | appTail {ts us vs : List Token} {f a : Term} {as : List Term} : Spells .atom ts f →
      Spells .args us as → Spells .tail vs a →
      Spells .term (ts ++ (us ++ vs)) (Term.app (as.foldl Term.app f) a)

/-! ### Repetitions taken apart -/

/-- What a form means for the phrases that take repetitions apart: atoms are arguments of whatever
stands before them, and bindings stand before the rest of a `let`. -/
def Form.Derived : (p : Form) → List Token → p.Tree → Prop
  | .atom, ts, t => Derives .atom ts t
  | .args, ts, as => ∀ {us : List Token} {f : Term}, Derives .apps us f →
      Derives .apps (us ++ ts) (List.foldl Term.app f as)
  | .tail, ts, t => Derives .tail ts t
  | .term, ts, t => Derives .term ts t
  | .bindings, ts, bs => ∀ {us : List Token} {b : Term}, Derives .letRest us b →
      Derives .bindings (ts ++ us) (Term.underBindings bs b)

theorem Derives.params {d : Token} {xs ts : List Token} {t : Term} (hne : xs ≠ [])
    (hxs : ∀ x ∈ xs, x.kind = .identifier) (hd : d.kind = .dot) (ht : Derives .term ts t) :
    Derives .params (xs ++ d :: ts) (Term.underParams (xs.map Token.text) t) := by
  induction xs with
  | nil => exact absurd rfl hne
  | cons x xs ih =>
    have hx := hxs x List.mem_cons_self
    by_cases hlast : xs = []
    · rw [hlast]
      exact .lastParam hx hd ht
    · exact .param hx (ih hlast fun y hy => hxs y (List.mem_cons_of_mem x hy))

theorem Derives.letEnd {s : Option Token} {i : Token} {ts : List Token} {t : Term}
    (hs : ∀ c ∈ s, c.kind = .semicolon) (hi : i.kind = .inWord) (ht : Derives .term ts t) :
    Derives .letRest (s.toList ++ i :: ts) t := by
  cases s with
  | none => exact .body hi ht
  | some c => exact .bodyAfterSemicolon (hs c rfl) hi ht

theorem Spells.derived {p : Form} {ts : List Token} {a : p.Tree} (h : Spells p ts a) :
    p.Derived ts a := by
  induction h with
  | var hx => exact Derives.var hx
  | paren hl _ hr ih => exact Derives.paren hl ih hr
  | noArg =>
    intro us f hf
    rwa [List.append_nil]
  | arg _ _ iha ihas =>
    intro us f hf
    rw [← List.append_assoc]
    exact ihas (.arg hf iha)
  | colon hx hc _ ih => exact Derives.colon hx hc ih
  | lambda hl hne hxs hd _ ih => exact Derives.lambda hl (Derives.params hne hxs hd ih)
  | letIn hl _ hs hi _ ihbs iht => exact Derives.letIn hl (ihbs (Derives.letEnd hs hi iht))
  | binding hx he _ ih =>
    intro us b hb
    exact Derives.binding hx he ih hb
  | bindings hx he _ hs _ ihv ihbs =>
    intro us b hb
    rw [List.cons_append, List.cons_append, List.append_assoc]
    exact Derives.binding hx he ihv (.nextBinding hs (ihbs hb))
  | ofTail _ ih => exact Derives.ofTail ih
  | app _ _ ihf ihas => exact Derives.ofApps (ihas (.single ihf))
  | appTail _ _ _ ihf ihas iha =>
    rw [← List.append_assoc]
    exact Derives.lastArg (ihas (.single ihf)) iha

/-! ### Repetitions put together -/

/-- The tokens are parameters, a dot and the body under the parameters. -/
def SpellsParams (ts : List Token) (t : Term) : Prop :=
  ∃ (xs : List Token) (d : Token) (us : List Token) (b : Term), ts = xs ++ d :: us ∧ xs ≠ [] ∧
    (∀ x ∈ xs, x.kind = .identifier) ∧ d.kind = .dot ∧ Spells .term us b ∧
    t = Term.underParams (xs.map Token.text) b

/-- The tokens are bindings, the end of the bindings and the body under the bindings. -/
def SpellsBindings (ts : List Token) (t : Term) : Prop :=
  ∃ (us : List Token) (bs : List (Name × Term)) (s : Option Token) (i : Token) (vs : List Token)
    (b : Term), ts = us ++ (s.toList ++ i :: vs) ∧ Spells .bindings us bs ∧
    (∀ c ∈ s, c.kind = .semicolon) ∧ i.kind = .inWord ∧ Spells .term vs b ∧
    t = Term.underBindings bs b

/-- What a phrase means for the notation: it is a form or, within a repetition, what is left of
one. -/
def Phrase.Spelled : Phrase → List Token → Term → Prop
  | .atom, ts, t => Spells .atom ts t
  | .apps, ts, t => ∃ (us vs : List Token) (f : Term) (as : List Term), ts = us ++ vs ∧
      Spells .atom us f ∧ Spells .args vs as ∧ t = as.foldl Term.app f
  | .tail, ts, t => Spells .tail ts t
  | .term, ts, t => Spells .term ts t
  | .params, ts, t => SpellsParams ts t
  | .bindings, ts, t => SpellsBindings ts t
  | .letRest, ts, t => ∀ {x e : Token} {us : List Token} {v : Term}, x.kind = .identifier →
      e.kind = .equals → Spells .term us v →
      SpellsBindings (x :: e :: (us ++ ts)) (.app (.abs x.text t) v)

namespace Spells

/-- Arguments may be added at the end. -/
theorem args_append {ts us : List Token} {a : Term} {as : List Term} (has : Spells .args ts as)
    (ha : Spells .atom us a) : Spells .args (ts ++ us) (as ++ [a]) := by
  induction as generalizing ts with
  | nil =>
    cases has
    have hlast := arg ha noArg
    rwa [List.append_nil] at hlast
  | cons b as ih =>
    cases has with
    | arg hb hbs =>
      rw [List.append_assoc]
      exact arg hb (ih hbs)

variable {x e s i : Token} {us ts : List Token} {v t : Term}

theorem letRest_of_body {s : Option Token} (hs : ∀ c ∈ s, c.kind = .semicolon)
    (hi : i.kind = .inWord) (ht : Spells .term ts t) :
    Phrase.letRest.Spelled (s.toList ++ i :: ts) t := by
  intro x e us v hx he hv
  exact ⟨x :: e :: us, [(x.text, v)], s, i, ts, t, rfl, binding hx he hv, hs, hi, ht, rfl⟩

theorem letRest_of_bindings (hs : s.kind = .semicolon) (ht : SpellsBindings ts t) :
    Phrase.letRest.Spelled (s :: ts) t := by
  intro x e us v hx he hv
  obtain ⟨ws, bs, c, i, vs, b, rfl, hbs, hc, hi, hb, rfl⟩ := ht
  refine ⟨x :: e :: (us ++ s :: ws), (x.text, v) :: bs, c, i, vs, b, ?_,
    bindings hx he hv hs hbs, hc, hi, hb, rfl⟩
  simp only [List.cons_append, List.append_assoc]

end Spells

theorem Derives.spelled {p : Phrase} {ts : List Token} {t : Term} (h : Derives p ts t) :
    p.Spelled ts t := by
  induction h with
  | var hx => exact Spells.var hx
  | paren hl _ hr ih => exact Spells.paren hl ih hr
  | single _ ih => exact ⟨_, [], _, [], (List.append_nil _).symm, ih, .noArg, rfl⟩
  | arg _ _ ihf iha =>
    obtain ⟨us, vs, f, as, rfl, hf, has, rfl⟩ := ihf
    refine ⟨us, vs ++ _, f, as ++ [_], List.append_assoc .., hf, has.args_append iha, ?_⟩
    rw [List.foldl_append]
    rfl
  | colon hx hc _ ih => exact Spells.colon hx hc ih
  | lambda hl _ ih =>
    obtain ⟨xs, d, us, b, rfl, hne, hxs, hd, hb, rfl⟩ := ih
    exact Spells.lambda hl hne hxs hd hb
  | letIn hl _ ih =>
    obtain ⟨us, bs, s, i, vs, b, rfl, hbs, hs, hi, hb, rfl⟩ := ih
    exact Spells.letIn hl hbs hs hi hb
  | ofTail _ ih => exact Spells.ofTail ih
  | ofApps _ ih =>
    obtain ⟨us, vs, f, as, rfl, hf, has, rfl⟩ := ih
    exact Spells.app hf has
  | lastArg _ _ ihf iha =>
    obtain ⟨us, vs, f, as, rfl, hf, has, rfl⟩ := ihf
    rw [List.append_assoc]
    exact Spells.appTail hf has iha
  | @lastParam x d ts t hx hd _ ih =>
    exact ⟨[x], d, ts, t, rfl, by simp, by simpa using hx, hd, ih, rfl⟩
  | @param x _ _ hx _ ih =>
    obtain ⟨xs, d, us, b, rfl, -, hxs, hd, hb, rfl⟩ := ih
    refine ⟨x :: xs, d, us, b, rfl, by simp, ?_, hd, hb, rfl⟩
    exact List.forall_mem_cons.2 ⟨hx, hxs⟩
  | binding hx he _ _ ihv ihb => exact ihb hx he ihv
  | body hi _ ih => exact Spells.letRest_of_body (s := none) (by simp) hi ih
  | @bodyAfterSemicolon s _ _ _ hs hi _ ih =>
    exact Spells.letRest_of_body (s := some s) (by simpa using hs) hi ih
  | nextBinding hs _ ih => exact Spells.letRest_of_bindings hs ih

/-- Both ways of writing the grammar spell the same terms. -/
theorem derives_iff_spells {ts : List Token} {t : Term} :
    Derives .term ts t ↔ Spells .term ts t :=
  ⟨Derives.spelled, Spells.derived⟩

/-! ### The parser -/

/-- Tokens spell at most one term: the parser reads it from them. -/
theorem Spells.unique {ts : List Token} {t u : Term} (ht : Spells .term ts t)
    (hu : Spells .term ts u) : t = u := by
  have hrun := Parser.run_of_derives 0 (derives_iff_spells.2 ht)
  rw [Parser.run_of_derives 0 (derives_iff_spells.2 hu)] at hrun
  exact (Except.ok.inj hrun).symm

/-- **The parser accepts exactly the notation and builds exactly its trees**: a source parses to a
term exactly if its tokens spell the term, and no tokens spell two terms. -/
theorem Term.parse_iff_spells :
    (∀ (s : Text) (t : Term), Term.parse s = .ok t ↔ Spells .term (Lexer.ofText s).tokens t) ∧
    ∀ (ts : List Token) (t u : Term), Spells .term ts t → Spells .term ts u → t = u := by
  refine ⟨fun s t => ?_, fun ts t u => Spells.unique⟩
  rw [Term.parse_eq_ok_iff, derives_iff_spells]

/-- A `let` with two bindings and a semicolon before `in`, a lambda with two parameters and an
abstraction as the last argument. -/
theorem Term.let_source_spells_one_term :
    let ts := (Lexer.ofText (utf8 "let k = \\x y. x; i = (z: z); in k i w: w k")).tokens
    let k := Term.abs (utf8 "x") (.abs (utf8 "y") (.var (utf8 "x")))
    let i := Term.abs (utf8 "z") (.var (utf8 "z"))
    let body := Term.app (.app (.var (utf8 "k")) (.var (utf8 "i")))
      (.abs (utf8 "w") (.app (.var (utf8 "w")) (.var (utf8 "k"))))
    let t := Term.app (.abs (utf8 "k") (.app (.abs (utf8 "i") body) i)) k
    Spells .term ts t ∧ ∀ u, Spells .term ts u → u = t := by
  intro ts k i body t
  obtain ⟨hparse, hunique⟩ := parse_iff_spells
  have ht : Spells .term ts t := (hparse _ t).1 (by decide +kernel)
  exact ⟨ht, fun u hu => hunique ts u t hu ht⟩

end CallByValue
