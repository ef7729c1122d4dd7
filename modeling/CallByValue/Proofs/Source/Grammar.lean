import CallByValue.Proofs.Source.Machine

/-!
# The grammar of terms

The grammar that the parser reads, as derivations of terms from tokens:

* `Atom ::= Ident | '(' Term ')'`
* `Apps ::= Atom | Apps Atom`
* `Tail ::= Ident ':' Term | Lambda Params | 'let' Bindings`
* `Term ::= Tail | Apps | Apps Tail`
* `Params ::= Ident '.' Term | Ident Params`
* `Bindings ::= Ident '=' Term LetRest`
* `LetRest ::= 'in' Term | ';' 'in' Term | ';' Bindings`

A tail reaches as far to the right as it can, so it can only be a whole term or the last argument of
one.

**Main theorem** (`Parser.reads_of_derives`): the machine reads every phrase.  At a place where a
phrase may start it takes the tokens of the phrase and stands behind the term that they derive, with
the same constructs open as before.  For an atom the token behind it must be no colon, which would
make a parameter of an identifier; for a phrase that ends in a term it must be one that ends terms.
-/

namespace CallByValue

/-- The phrases of the grammar. -/
inductive Phrase where
  /-- An identifier or a term in parentheses. -/
  | atom
  /-- An atom with further atoms as its arguments. -/
  | apps
  /-- An abstraction or a `let`. -/
  | tail
  /-- A whole term. -/
  | term
  /-- The parameters of a lambda and its body. -/
  | params
  /-- The bindings of a `let` and its body. -/
  | bindings
  /-- What follows the value of a binding. -/
  | letRest
  deriving DecidableEq, Repr

/-- The tokens are a phrase that spells the term. -/
inductive Derives : Phrase → List Token → Term → Prop where
  | var {x : Token} : x.kind = .identifier → Derives .atom [x] (.var x.text)
  | paren {l r : Token} {ts : List Token} {t : Term} : l.kind = .leftParen → Derives .term ts t →
      r.kind = .rightParen → Derives .atom (l :: (ts ++ [r])) t
  | single {ts : List Token} {t : Term} : Derives .atom ts t → Derives .apps ts t
  | arg {ts us : List Token} {f a : Term} : Derives .apps ts f → Derives .atom us a →
      Derives .apps (ts ++ us) (.app f a)
  | colon {x c : Token} {ts : List Token} {t : Term} : x.kind = .identifier → c.kind = .colon →
      Derives .term ts t → Derives .tail (x :: c :: ts) (.abs x.text t)
  | lambda {l : Token} {ts : List Token} {t : Term} : l.kind = .lambda → Derives .params ts t →
      Derives .tail (l :: ts) t
  | letIn {l : Token} {ts : List Token} {t : Term} : l.kind = .letWord → Derives .bindings ts t →
      Derives .tail (l :: ts) t
  | ofTail {ts : List Token} {t : Term} : Derives .tail ts t → Derives .term ts t
  | ofApps {ts : List Token} {t : Term} : Derives .apps ts t → Derives .term ts t
  | lastArg {ts us : List Token} {f a : Term} : Derives .apps ts f → Derives .tail us a →
      Derives .term (ts ++ us) (.app f a)
  | lastParam {x d : Token} {ts : List Token} {t : Term} : x.kind = .identifier → d.kind = .dot →
      Derives .term ts t → Derives .params (x :: d :: ts) (.abs x.text t)
  | param {x : Token} {ts : List Token} {t : Term} : x.kind = .identifier → Derives .params ts t →
      Derives .params (x :: ts) (.abs x.text t)
  | binding {x e : Token} {ts us : List Token} {v b : Term} : x.kind = .identifier →
      e.kind = .equals → Derives .term ts v → Derives .letRest us b →
      Derives .bindings (x :: e :: (ts ++ us)) (.app (.abs x.text b) v)
  | body {i : Token} {ts : List Token} {t : Term} : i.kind = .inWord → Derives .term ts t →
      Derives .letRest (i :: ts) t
  | bodyAfterSemicolon {s i : Token} {ts : List Token} {t : Term} : s.kind = .semicolon →
      i.kind = .inWord → Derives .term ts t → Derives .letRest (s :: i :: ts) t
  | nextBinding {s : Token} {ts : List Token} {t : Term} : s.kind = .semicolon →
      Derives .bindings ts t → Derives .letRest (s :: ts) t

/-- No phrase starts with a colon. -/
theorem Derives.headKind_ne_colon {p : Phrase} {ts : List Token} {t : Term} (h : Derives p ts t)
    (rest : List Token) : headKind (ts ++ rest) ≠ .colon := by
  induction h generalizing rest with
  | var hx | paren hx | colon hx | lambda hx | letIn hx | lastParam hx | param hx | binding hx
  | body hx | bodyAfterSemicolon hx | nextBinding hx => simp [hx]
  | single _ ih | ofTail _ ih | ofApps _ ih => exact ih rest
  | arg _ _ ih | lastArg _ _ ih =>
    rw [List.append_assoc]
    exact ih _

/-- The value of a binding ends where the rest of the `let` starts. -/
theorem Derives.isCloser_headKind {ts : List Token} {t : Term} (h : Derives .letRest ts t)
    (rest : List Token) : (headKind (ts ++ rest)).isCloser = true := by
  cases h with
  | body hx | bodyAfterSemicolon hx | nextBinding hx =>
    rw [List.cons_append, headKind_cons, hx]
    rfl

namespace Parser

/-! ### The machine reads every phrase -/

variable (n : Nat)

/-- What the machine does on the tokens of a phrase. -/
def Reads : Phrase → List Token → Term → Prop
  | .atom, ts, t => ∀ fn stack rest, headKind rest ≠ .colon →
      run n (entry fn) stack (ts ++ rest) = run n (.atom (applied fn t)) stack rest
  | .apps, ts, t => ∀ stack rest, headKind rest ≠ .colon →
      run n .term stack (ts ++ rest) = run n (.atom t) stack rest
  | .tail, ts, t => ∀ fn stack rest, (headKind rest).isCloser = true →
      run n (entry fn) stack (ts ++ rest) = run n (.atom (applied fn t)) stack rest
  | .term, ts, t => ∀ stack rest, (headKind rest).isCloser = true →
      run n .term stack (ts ++ rest) = run n (.atom t) stack rest
  | .params, ts, t => ∀ m ∈ [Mode.lambda, .parameters], ∀ stack rest,
      (headKind rest).isCloser = true →
      run n m stack (ts ++ rest) = run n (.atom t) stack rest
  | .bindings, ts, t => ∀ m ∈ [Mode.letWord, .semicolon], ∀ stack rest,
      (headKind rest).isCloser = true →
      run n m stack (ts ++ rest) = run n (.atom t) stack rest
  | .letRest, ts, t => ∀ x v stack rest, (headKind rest).isCloser = true →
      run n (.atom v) (.letValue x :: stack) (ts ++ rest) =
        run n (.atom (.app (.abs x t) v)) stack rest

section Reads

variable {n : Nat} {x c d e i l r s : Token} {ts us : List Token} {t u : Term}

theorem reads_var (hx : x.kind = .identifier) : Reads n .atom [x] (.var x.text) := by
  intro fn stack rest hrest
  rw [List.singleton_append, run_shift n (step_entry_identifier hx),
    run_identifier n fn _ stack hrest]

theorem reads_paren (hl : l.kind = .leftParen) (ht : Reads n .term ts t)
    (hr : r.kind = .rightParen) : Reads n .atom (l :: (ts ++ [r])) t := by
  intro fn stack rest _
  rw [List.cons_append, List.append_assoc, List.singleton_append,
    run_shift n (step_entry_leftParen hl), ht _ (r :: rest) (by rw [headKind_cons, hr]; rfl),
    run_shift n (step_rightParen hr fn t stack)]

theorem reads_colon (hx : x.kind = .identifier) (hc : c.kind = .colon) (ht : Reads n .term ts t) :
    Reads n .tail (x :: c :: ts) (.abs x.text t) := by
  intro fn stack rest hrest
  rw [List.cons_append, List.cons_append, run_shift n (step_entry_identifier hx),
    run_shift n (step_identifier_colon x.text hc), ht _ rest hrest,
    run_bind n x.text t _ hrest, run_inLastArg n fn _ stack hrest]

theorem reads_lambda (hl : l.kind = .lambda) (ht : Reads n .params ts t) :
    Reads n .tail (l :: ts) t := by
  intro fn stack rest hrest
  rw [List.cons_append, run_shift n (step_entry_lambda hl), ht .lambda (by simp) _ rest hrest,
    run_inLastArg n fn t stack hrest]

theorem reads_letIn (hl : l.kind = .letWord) (ht : Reads n .bindings ts t) :
    Reads n .tail (l :: ts) t := by
  intro fn stack rest hrest
  rw [List.cons_append, run_shift n (step_entry_letWord hl), ht .letWord (by simp) _ rest hrest,
    run_inLastArg n fn t stack hrest]

theorem reads_lastParam (hx : x.kind = .identifier) (hd : d.kind = .dot) (ht : Reads n .term ts t) :
    Reads n .params (x :: d :: ts) (.abs x.text t) := by
  intro m hm stack rest hrest
  rw [List.cons_append, List.cons_append, run_shift n (step_param hx hm stack),
    run_shift n (step_dot hd _),
    ht _ rest hrest, run_bind n x.text t stack hrest]

theorem reads_param (hx : x.kind = .identifier) (ht : Reads n .params ts t) :
    Reads n .params (x :: ts) (.abs x.text t) := by
  intro m hm stack rest hrest
  rw [List.cons_append, run_shift n (step_param hx hm stack), ht .parameters (by simp) _ rest hrest,
    run_bind n x.text t stack hrest]

theorem reads_binding {v b : Term} (hx : x.kind = .identifier) (he : e.kind = .equals)
    (hus : ∀ rest, (headKind (us ++ rest)).isCloser = true) (hv : Reads n .term ts v)
    (hb : Reads n .letRest us b) :
    Reads n .bindings (x :: e :: (ts ++ us)) (.app (.abs x.text b) v) := by
  intro m hm stack rest hrest
  rw [List.cons_append, List.cons_append, List.append_assoc, run_shift n (step_binding hx hm stack),
    run_shift n (step_equals he _ stack), hv _ (us ++ rest) (hus rest), hb _ v stack rest hrest]

theorem reads_body (hi : i.kind = .inWord) (ht : Reads n .term ts t) :
    Reads n .letRest (i :: ts) t := by
  intro x v stack rest hrest
  rw [List.cons_append, run_shift n (step_inWord hi x v stack), ht _ rest hrest,
    run_letBody n x v t stack hrest]

theorem reads_bodyAfterSemicolon (hs : s.kind = .semicolon) (hi : i.kind = .inWord)
    (ht : Reads n .term ts t) : Reads n .letRest (s :: i :: ts) t := by
  intro x v stack rest hrest
  rw [List.cons_append, List.cons_append, run_shift n (step_semicolon hs x v stack),
    run_shift n (step_semicolon_inWord hi _), ht _ rest hrest, run_letBody n x v t stack hrest]

theorem reads_nextBinding (hs : s.kind = .semicolon) (ht : Reads n .bindings ts t) :
    Reads n .letRest (s :: ts) t := by
  intro x v stack rest hrest
  rw [List.cons_append, run_shift n (step_semicolon hs x v stack),
    ht .semicolon (by simp) _ rest hrest, run_letBody n x v t stack hrest]

end Reads

/-- **The machine reads every phrase.** -/
theorem reads_of_derives (n : Nat) {p : Phrase} {ts : List Token} {t : Term} (h : Derives p ts t) :
    Reads n p ts t := by
  induction h with
  | var hx => exact reads_var hx
  | paren hl _ hr ih => exact reads_paren hl ih hr
  | single _ ih =>
    intro stack rest hrest
    exact ih none stack rest hrest
  | arg _ ha ihf iha =>
    intro stack rest hrest
    rw [List.append_assoc, ihf stack _ (ha.headKind_ne_colon rest)]
    exact iha (some _) stack rest hrest
  | colon hx hc _ ih => exact reads_colon hx hc ih
  | lambda hl _ ih => exact reads_lambda hl ih
  | letIn hl _ ih => exact reads_letIn hl ih
  | ofTail _ ih =>
    intro stack rest hrest
    exact ih none stack rest hrest
  | ofApps _ ih =>
    intro stack rest hrest
    exact ih stack rest (Token.Kind.isCloser.ne_colon hrest)
  | lastArg _ ha ihf iha =>
    intro stack rest hrest
    rw [List.append_assoc, ihf stack _ (ha.headKind_ne_colon rest)]
    exact iha (some _) stack rest hrest
  | lastParam hx hd _ ih => exact reads_lastParam hx hd ih
  | param hx _ ih => exact reads_param hx ih
  | binding hx he _ hus ihv ihb => exact reads_binding hx he hus.isCloser_headKind ihv ihb
  | body hi _ ih => exact reads_body hi ih
  | bodyAfterSemicolon hs hi _ ih => exact reads_bodyAfterSemicolon hs hi ih
  | nextBinding hs _ ih => exact reads_nextBinding hs ih

end Parser

end CallByValue
