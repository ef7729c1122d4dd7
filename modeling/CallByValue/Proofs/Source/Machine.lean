import CallByValue.Source.Parser

/-!
# The parser as a machine

What the rules of the parser have still to read when they return is data for the machine of this module: its
`Mode` says what has just been read and its stack of `Frame`s which constructs are still open.  A token that
ends a term closes every open abstraction, argument and `let` body up to the nearest parenthesis or `let`
value.  So each token is either taken or refused on sight (`Parser.step`), and a refused token is the first
one at which no term can go on.

The machine runs over the tokens of a source (`Parser.run`).  The rules of the parser, which read tokens on
demand and put one back, come to the same results (`Parser.parseWithin_eq_run`).
-/

namespace CallByValue

/-- The kind of the next token. -/
def headKind : List Token → Token.Kind
  | [] => .endOfInput
  | tok :: _ => tok.kind

@[simp] theorem headKind_nil : headKind [] = .endOfInput := rfl

@[simp] theorem headKind_cons (tok : Token) (rest : List Token) :
    headKind (tok :: rest) = tok.kind := rfl

/-- The tokens that end a term. -/
def Token.Kind.isCloser : Token.Kind → Bool
  | endOfInput | rightParen | semicolon | inWord => true
  | _ => false

theorem Token.Kind.isCloser.ne_colon {k : Token.Kind} (h : k.isCloser = true) : k ≠ .colon := by
  rintro rfl
  exact absurd h (by decide)

namespace Parser

/-! ### The machine -/

/-- A construct whose end has not been read yet. -/
inductive Frame where
  /-- A parenthesis, the argument of `fn` if there is one. -/
  | group (fn : Option Term)
  /-- An abstraction over `x`. -/
  | bind (x : Name)
  /-- The last argument of `fn`. -/
  | lastArg (fn : Term)
  /-- The value that a `let` binds to `x`. -/
  | letValue (x : Name)
  /-- What follows the binding of `x` to `value` in a `let`. -/
  | letBody (x : Name) (value : Term)
  deriving DecidableEq, Repr

/-- What has just been read. -/
inductive Mode where
  /-- Nothing yet of the term that must start here. -/
  | term
  /-- The identifier `x`, a parameter if a colon follows and else an atom, the argument of `fn` if
  there is one. -/
  | identifier (fn : Option Term) (x : Name)
  /-- The term `t`, which further arguments may follow. -/
  | atom (t : Term)
  /-- A lambda. -/
  | lambda
  /-- A lambda and at least one parameter. -/
  | parameters
  /-- The word `let`. -/
  | letWord
  /-- The semicolon after a `let` value. -/
  | semicolon
  /-- The name `x` of a `let` binding. -/
  | letName (x : Name)
  deriving DecidableEq, Repr

/-- What the machine does on a token. -/
inductive Step where
  /-- It takes the token. -/
  | shift (m : Mode) (stack : List Frame)
  /-- The whole source is read. -/
  | accept (t : Term)
  /-- It refuses the token. -/
  | refuse (e : Expected)
  deriving DecidableEq, Repr

/-- A term as the argument of `fn`, or by itself. -/
def applied (fn : Option Term) (t : Term) : Term :=
  match fn with
  | none => t
  | some f => .app f t

/-- The term `t` ends before a token of kind `k`. -/
def close (k : Token.Kind) : List Frame → Term → Step
  | [], t => if k = .endOfInput then .accept t else .refuse .endOfTerm
  | .bind x :: stack, t => close k stack (.abs x t)
  | .lastArg f :: stack, t => close k stack (.app f t)
  | .letBody x v :: stack, t => close k stack (.app (.abs x t) v)
  | .group f :: stack, t =>
    if k = .rightParen then .shift (.atom (applied f t)) stack else .refuse .rightParen
  | .letValue x :: stack, t =>
    match k with
    | .semicolon => .shift .semicolon (.letBody x t :: stack)
    | .inWord => .shift .term (.letBody x t :: stack)
    | _ => .refuse .letSeparator

/-- A token where a term must start. -/
def start (stack : List Frame) (tok : Token) : Step :=
  match tok.kind with
  | .letWord => .shift .letWord stack
  | .lambda => .shift .lambda stack
  | .identifier => .shift (.identifier none tok.text) stack
  | .leftParen => .shift .term (.group none :: stack)
  | _ => .refuse .term

/-- A token after the term `t`: a further argument or the end of the term. -/
def extend (t : Term) (stack : List Frame) (tok : Token) : Step :=
  match tok.kind with
  | .letWord => .shift .letWord (.lastArg t :: stack)
  | .lambda => .shift .lambda (.lastArg t :: stack)
  | .identifier => .shift (.identifier (some t) tok.text) stack
  | .leftParen => .shift .term (.group (some t) :: stack)
  | .colon | .equals | .dot => .refuse .term
  | k => close k stack t

/-- The name of a `let` binding. -/
def bindingName (stack : List Frame) (tok : Token) : Step :=
  match tok.kind with
  | .identifier => .shift (.letName tok.text) stack
  | _ => .refuse .letName

/-- What the machine does on a token. -/
def step (m : Mode) (stack : List Frame) (tok : Token) : Step :=
  match m with
  | .term => start stack tok
  | .identifier fn x =>
    match tok.kind, fn with
    | .colon, none => .shift .term (.bind x :: stack)
    | .colon, some f => .shift .term (.bind x :: .lastArg f :: stack)
    | _, _ => extend (applied fn (.var x)) stack tok
  | .atom t => extend t stack tok
  | .lambda =>
    match tok.kind with
    | .identifier => .shift .parameters (.bind tok.text :: stack)
    | _ => .refuse .parameter
  | .parameters =>
    match tok.kind with
    | .identifier => .shift .parameters (.bind tok.text :: stack)
    | .dot => .shift .term stack
    | _ => .refuse .dot
  | .letWord => bindingName stack tok
  | .semicolon =>
    match tok.kind with
    | .inWord => .shift .term stack
    | _ => bindingName stack tok
  | .letName x =>
    match tok.kind with
    | .equals => .shift .term (.letValue x :: stack)
    | _ => .refuse .equals

/-- Runs the machine over the tokens ahead and the end of a source of the given length; gives the
result and the tokens left, from the refused one on. -/
def run (length : Nat) : Mode → List Frame → List Token → Except SyntaxError Term × List Token
  | m, stack, [] =>
    match step m stack (.atEnd length) with
    | .accept t => (.ok t, [])
    | .refuse e => (.error ⟨e, .atEnd length⟩, [])
    | .shift _ _ => (.error ⟨.term, .atEnd length⟩, [])
  | m, stack, tok :: rest =>
    match step m stack tok with
    | .accept t => (.ok t, tok :: rest)
    | .refuse e => (.error ⟨e, tok⟩, tok :: rest)
    | .shift m' stack' => run length m' stack' rest

/-! ### Single steps of the machine -/

/-- The place where an argument of `fn` may start, or where a term must start. -/
def entry : Option Term → Mode
  | none => .term
  | some f => .atom f

/-- The constructs that are open in the last argument of `fn`. -/
def inLastArg (fn : Option Term) (stack : List Frame) : List Frame :=
  match fn with
  | none => stack
  | some f => .lastArg f :: stack

section Steps

variable {fn : Option Term} {m m' : Mode} {stack stack' : List Frame} {tok : Token}

theorem step_entry_identifier (h : tok.kind = .identifier) :
    step (entry fn) stack tok = .shift (.identifier fn tok.text) stack := by
  cases fn <;> simp only [entry, step, start, extend, h]

theorem step_entry_leftParen (h : tok.kind = .leftParen) :
    step (entry fn) stack tok = .shift .term (.group fn :: stack) := by
  cases fn <;> simp only [entry, step, start, extend, h]

theorem step_entry_lambda (h : tok.kind = .lambda) :
    step (entry fn) stack tok = .shift .lambda (inLastArg fn stack) := by
  cases fn <;> simp only [entry, step, start, extend, h, inLastArg]

theorem step_entry_letWord (h : tok.kind = .letWord) :
    step (entry fn) stack tok = .shift .letWord (inLastArg fn stack) := by
  cases fn <;> simp only [entry, step, start, extend, h, inLastArg]

theorem step_identifier_colon (x : Name) (h : tok.kind = .colon) :
    step (.identifier fn x) stack tok = .shift .term (.bind x :: inLastArg fn stack) := by
  cases fn <;> simp only [step, h, inLastArg]

theorem step_identifier (x : Name) (h : tok.kind ≠ .colon) :
    step (.identifier fn x) stack tok = extend (applied fn (.var x)) stack tok := by
  simp only [step]
  split <;> simp_all

theorem extend_of_isCloser (t : Term) (h : tok.kind.isCloser = true) :
    extend t stack tok = close tok.kind stack t := by
  unfold extend
  split <;> simp_all [Token.Kind.isCloser]

theorem step_rightParen (h : tok.kind = .rightParen) (fn : Option Term) (t : Term)
    (stack : List Frame) :
    step (.atom t) (.group fn :: stack) tok = .shift (.atom (applied fn t)) stack := by
  rw [step, extend_of_isCloser t (by rw [h]; rfl), h]
  rfl

theorem step_param (h : tok.kind = .identifier) (hm : m ∈ [Mode.lambda, .parameters])
    (stack : List Frame) : step m stack tok = .shift .parameters (.bind tok.text :: stack) := by
  simp only [List.mem_cons, List.not_mem_nil, or_false] at hm
  rcases hm with rfl | rfl <;> simp only [step, h]

theorem step_dot (h : tok.kind = .dot) (stack : List Frame) :
    step .parameters stack tok = .shift .term stack := by
  simp only [step, h]

theorem step_binding (h : tok.kind = .identifier) (hm : m ∈ [Mode.letWord, .semicolon])
    (stack : List Frame) : step m stack tok = .shift (.letName tok.text) stack := by
  simp only [List.mem_cons, List.not_mem_nil, or_false] at hm
  rcases hm with rfl | rfl <;> simp only [step, bindingName, h]

theorem step_equals (h : tok.kind = .equals) (x : Name) (stack : List Frame) :
    step (.letName x) stack tok = .shift .term (.letValue x :: stack) := by
  simp only [step, h]

theorem step_semicolon (h : tok.kind = .semicolon) (x : Name) (v : Term) (stack : List Frame) :
    step (.atom v) (.letValue x :: stack) tok = .shift .semicolon (.letBody x v :: stack) := by
  rw [step, extend_of_isCloser v (by rw [h]; rfl), h]
  rfl

theorem step_inWord (h : tok.kind = .inWord) (x : Name) (v : Term) (stack : List Frame) :
    step (.atom v) (.letValue x :: stack) tok = .shift .term (.letBody x v :: stack) := by
  rw [step, extend_of_isCloser v (by rw [h]; rfl), h]
  rfl

theorem step_semicolon_inWord (h : tok.kind = .inWord) (stack : List Frame) :
    step .semicolon stack tok = .shift .term stack := by
  simp only [step, h]

/-! What is refused: -/

/-- The tokens that start a term. -/
def starters : List Token.Kind := [.identifier, .leftParen, .lambda, .letWord]

theorem step_entry_refuse (hstart : tok.kind ∉ starters)
    (hclose : fn = none ∨ tok.kind.isCloser = false) :
    step (entry fn) stack tok = .refuse .term := by
  rcases fn with - | f
  · simp only [entry, step, start]
    split <;> simp_all [starters]
  · simp only [entry, step, extend]
    cases hk : tok.kind <;> simp_all [starters, Token.Kind.isCloser]

theorem step_group_refuse (t : Term) (hclose : tok.kind.isCloser = true)
    (h : tok.kind ≠ .rightParen) :
    step (.atom t) (.group fn :: stack) tok = .refuse .rightParen := by
  rw [step, extend_of_isCloser t hclose, close, if_neg h]

theorem step_lambda_refuse (h : tok.kind ≠ .identifier) :
    step .lambda stack tok = .refuse .parameter := by
  simp only [step]

theorem step_parameters_refuse (hx : tok.kind ≠ .identifier) (hd : tok.kind ≠ .dot) :
    step .parameters stack tok = .refuse .dot := by
  simp only [step]

theorem step_letWord_refuse (h : tok.kind ≠ .identifier) :
    step .letWord stack tok = .refuse .letName := by
  simp only [step, bindingName]

theorem step_letName_refuse (x : Name) (h : tok.kind ≠ .equals) :
    step (.letName x) stack tok = .refuse .equals := by
  simp only [step]

theorem step_letValue_refuse (x : Name) (v : Term) (hclose : tok.kind.isCloser = true)
    (hs : tok.kind ≠ .semicolon) (hi : tok.kind ≠ .inWord) :
    step (.atom v) (.letValue x :: stack) tok = .refuse .letSeparator := by
  rw [step, extend_of_isCloser v hclose, close]
  · exact hs
  · exact hi

/-! The end of a source is never taken: -/

theorem close_endOfInput_ne_shift (t : Term) :
    close .endOfInput stack t ≠ .shift m' stack' := by
  induction stack generalizing t with
  | nil => simp [close]
  | cons frame stack ih =>
    cases frame with
    | bind x => exact ih (.abs x t)
    | lastArg f => exact ih (.app f t)
    | letBody x v => exact ih (.app (.abs x t) v)
    | group f => simp [close]
    | letValue x => simp [close]

/-- The end of a source is never taken. -/
theorem step_atEnd_ne_shift (n : Nat) (m : Mode) (stack : List Frame) :
    step m stack (.atEnd n) ≠ .shift m' stack' := by
  cases m with
  | identifier fn x => exact close_endOfInput_ne_shift _
  | atom t => exact close_endOfInput_ne_shift t
  | _ => simp [step, start, bindingName, Token.atEnd]

end Steps

/-! ### Runs -/

variable (n : Nat)

theorem run_shift {m m' : Mode} {stack stack' : List Frame} {tok : Token}
    (h : step m stack tok = .shift m' stack') (rest : List Token) :
    run n m stack (tok :: rest) = run n m' stack' rest := by
  rw [run, h]

/-- Two places where the next token does the same. -/
theorem run_congr {m m' : Mode} {stack stack' : List Frame} {rest : List Token}
    (h : ∀ tok, tok.kind = headKind rest → step m stack tok = step m' stack' tok) :
    run n m stack rest = run n m' stack' rest := by
  cases rest with
  | nil => rw [run, run, h (.atEnd n) rfl]
  | cons tok rest => rw [run, run, h tok rfl]

theorem run_identifier (fn : Option Term) (x : Name) (stack : List Frame) {rest : List Token}
    (h : headKind rest ≠ .colon) :
    run n (.identifier fn x) stack rest = run n (.atom (applied fn (.var x))) stack rest :=
  run_congr n fun _ htok => step_identifier x (htok ▸ h)

/-- An abstraction or a `let` behind a function is a term by itself, as its last argument. -/
theorem run_lastArg (f : Term) (stack : List Frame) {rest : List Token}
    (h : headKind rest ∈ [Token.Kind.lambda, .letWord]) :
    run n (.atom f) stack rest = run n .term (.lastArg f :: stack) rest :=
  run_congr n fun tok htok => by
    simp only [← htok, List.mem_cons, List.not_mem_nil, or_false] at h
    rcases h with h | h <;> simp only [step, start, extend, h]

theorem run_semicolon (stack : List Frame) {rest : List Token} (h : headKind rest ≠ .inWord) :
    run n .semicolon stack rest = run n .letWord stack rest :=
  run_congr n fun tok htok => by
    rw [← htok] at h
    simp only [step]

/-- Where a term ends, what matters is only how it closes. -/
theorem run_atom_of_close {t t' : Term} {stack stack' : List Frame} {rest : List Token}
    (h : (headKind rest).isCloser = true) (hclose : ∀ k, close k stack t = close k stack' t') :
    run n (.atom t) stack rest = run n (.atom t') stack' rest :=
  run_congr n fun tok htok => by
    rw [← htok] at h
    rw [step, step, extend_of_isCloser t h, extend_of_isCloser t' h, hclose]

theorem run_bind (x : Name) (t : Term) (stack : List Frame) {rest : List Token}
    (h : (headKind rest).isCloser = true) :
    run n (.atom t) (.bind x :: stack) rest = run n (.atom (.abs x t)) stack rest :=
  run_atom_of_close n h fun _ => rfl

theorem run_letBody (x : Name) (v t : Term) (stack : List Frame) {rest : List Token}
    (h : (headKind rest).isCloser = true) :
    run n (.atom t) (.letBody x v :: stack) rest = run n (.atom (.app (.abs x t) v)) stack rest :=
  run_atom_of_close n h fun _ => rfl

theorem run_inLastArg (fn : Option Term) (t : Term) (stack : List Frame) {rest : List Token}
    (h : (headKind rest).isCloser = true) :
    run n (.atom t) (inLastArg fn stack) rest = run n (.atom (applied fn t)) stack rest := by
  cases fn with
  | none => rfl
  | some f => exact run_atom_of_close n h fun _ => rfl

/-- Parameters become abstractions, the innermost last. -/
theorem run_foldl_bind (xs : List Name) (t : Term) (stack : List Frame) {rest : List Token}
    (h : (headKind rest).isCloser = true) :
    run n (.atom t) (xs.foldl (fun st x => .bind x :: st) stack) rest =
      run n (.atom (xs.foldr .abs t)) stack rest := by
  induction xs generalizing stack with
  | nil => rfl
  | cons x xs ih => rw [List.foldl_cons, ih, run_bind n x _ stack h, List.foldr_cons]

/-- Bindings become applied abstractions, the innermost last. -/
theorem run_foldl_letBody (bs : List (Name × Term)) (t : Term) (stack : List Frame)
    {rest : List Token} (h : (headKind rest).isCloser = true) :
    run n (.atom t) (bs.foldl (fun st b => .letBody b.1 b.2 :: st) stack) rest =
      run n (.atom (bs.foldr (fun b body => .app (.abs b.1 body) b.2) t)) stack rest := by
  induction bs generalizing stack with
  | nil => rfl
  | cons b bs ih => rw [List.foldl_cons, ih, run_letBody n b.1 b.2 _ stack h, List.foldr_cons]

end Parser

end CallByValue
