import CallByValue.Proofs.Text.Chars
import CallByValue.Yaml.Scanner

/-!
# Scanning a line

The scanner reads one character at a time, and what a character does depends on many fields of its
state.  On a line that has begun only some of them matter: a `Spot` holds these, and `Spot.scanner` is
the scanner there.  Stretches of characters then take one spot to another (`Scanner.Scans`):

* a plain scalar is gathered (`Spot.scans_plain`), provided that it starts with nothing that has a
  meaning of its own and that nothing in it ends it (`Spot.Plain`);
* a text in quotes becomes a token, with the backslashes taken off (`Spot.scans_quoted`);
* a word before a colon becomes a key (`Spot.scans_key`).
-/

namespace CallByValue

namespace Yaml

namespace Scanner

/-! ### Runs of a scanner -/

/-- The scanner `s` comes to `s'`, and takes no more steps for that than it reads characters. -/
def Scans (s s' : Scanner) : Prop :=
  ∃ n, n + s'.rest.length ≤ s.rest.length ∧ ∀ fuel, run? (n + fuel) s = run? fuel s'

namespace Scans

variable {s s' s'' : Scanner} {c : Char} {cs : List Char}

theorem refl (s : Scanner) : Scans s s := ⟨0, by omega, fun fuel => by rw [Nat.zero_add]⟩

theorem trans (h : Scans s s') (h' : Scans s' s'') : Scans s s'' := by
  obtain ⟨n, hn, hrun⟩ := h
  obtain ⟨m, hm, hrun'⟩ := h'
  refine ⟨n + m, by omega, fun fuel => ?_⟩
  rw [Nat.add_assoc, hrun, hrun']

theorem step (hrest : s.rest = c :: cs) (hstep : s.step? c = some s')
    (hlen : s'.rest.length ≤ cs.length) : Scans s s' := by
  refine ⟨1, by rw [hrest, List.length_cons]; omega, fun fuel => ?_⟩
  rw [Nat.add_comm, run?, hrest]
  simp only [hstep, Option.bind_some]

/-- A scanner that comes to the end is done. -/
theorem run_eq_some (h : Scans s s') (hrest : s'.rest = []) : run? s.rest.length s = some s' := by
  obtain ⟨n, hn, hrun⟩ := h
  rw [← Nat.add_sub_cancel' (Nat.le_trans (Nat.le_add_right n _) hn), hrun]
  cases s.rest.length - n with
  | zero => rfl
  | succ fuel => rw [run?, hrest]

/-- A scanner that comes to a character which it refuses fails. -/
theorem run_eq_none (h : Scans s s') (hrest : s'.rest = c :: cs) (hstep : s'.step? c = none) :
    run? s.rest.length s = none := by
  obtain ⟨n, hn, hrun⟩ := h
  rw [hrest, List.length_cons] at hn
  obtain ⟨fuel, hfuel⟩ : ∃ fuel, s.rest.length = n + (fuel + 1) :=
    ⟨s.rest.length - n - 1, by omega⟩
  rw [hfuel, hrun, run?, hrest]
  simp only [hstep, Option.bind_none]

end Scans

theorem step?_of_ne_outer {s : Scanner} {c : Char} (hblock : (s.settle c).block = none)
    (hlevel : (s.settle c).level ≠ .outer) : s.step? c = (s.settle c).char? c := by
  simp [step?, hblock]

theorem step?_of_outer {s : Scanner} {c : Char} (hblock : (s.settle c).block = none)
    (hlevel : (s.settle c).level = .outer) : s.step? c = (s.settle c).flush.char? c := by
  simp only [step?, hblock, hlevel]

/-- A sign where nothing has been gathered. -/
theorem emitSign_of_gathered {s : Scanner} {c : Char} {cs : List Char} (h : s.gathered = [])
    (hrest : s.rest = c :: cs) (kind : TokenKind) :
    s.emitSign kind =
      { s with
        rest := cs, before := some c, column := s.column + 1, saved := none, chars := [], body := []
        source := [], block := none, tokens := ⟨kind, s.mark, []⟩ :: s.tokens } := by
  simp [emitSign, flush, takeText, h, emit, move, skip, clear, reset, hrest, mark]

end Scanner

/-! ### Quotations -/

namespace Quotation

variable {q : Quotation} {c : Char} {cs rest : List Char} {fuel : Nat}

/-- The quotation after a character of its text. -/
def read (c : Char) (rest : List Char) (q : Quotation) : Quotation :=
  { q with
    rest := rest, text := c :: q.text, source := (Text.escaped c).reverse ++ q.source
    column := q.column + (Text.escaped c).length }

theorem double?_char (hrest : q.rest = Text.escaped c ++ rest) (hfolding : q.folding = false)
    (hstart : q.atStart = false) (hc : isBreak c = false ∧ c ≠ '\t') :
    q.double? (fuel + 1) = (q.read c rest).double? fuel := by
  by_cases hescape : c = '"' ∨ c = '\\'
  · have hesc : Text.escaped c = ['\\', c] := if_pos hescape
    have hlookup : escapes.lookup c = some c := by rcases hescape with rfl | rfl <;> rfl
    rw [hesc] at hrest
    simp [double?, hrest, isBreak, step, hfolding, hstart, escape?, hlookup, add, read, hesc]
  · have hesc : Text.escaped c = [c] := if_neg hescape
    rw [not_or] at hescape
    rw [hesc] at hrest
    simp [double?, hrest, hc, step, hfolding, hstart, hescape, add, read, hesc]

/-- A quotation is read up to the closing quote. -/
theorem double?_escaped (hrest : q.rest = cs.flatMap Text.escaped ++ '"' :: rest)
    (hfolding : q.folding = false) (hstart : q.atStart = false) (hlost : q.lost = 0)
    (hcs : ∀ c ∈ cs, isBreak c = false ∧ c ≠ '\t') (hfuel : cs.length < fuel) :
    ∃ column, q.double? fuel = some { q with
      rest := rest, text := cs.reverse ++ q.text, column := column
      source := '"' :: (cs.flatMap Text.escaped).reverse ++ q.source } := by
  induction cs generalizing q fuel with
  | nil =>
    obtain ⟨fuel, rfl⟩ : ∃ f, fuel = f + 1 := ⟨fuel - 1, by simp at hfuel; omega⟩
    simp [double?, hrest, isBreak, step, close, hfolding, hstart, hlost]
  | cons c cs ih =>
    obtain ⟨fuel, rfl⟩ : ∃ f, fuel = f + 1 := ⟨fuel - 1, by omega⟩
    obtain ⟨hc, hcs⟩ := List.forall_mem_cons.1 hcs
    rw [List.flatMap_cons, List.append_assoc] at hrest
    obtain ⟨column, hread⟩ := ih (q := q.read c (cs.flatMap Text.escaped ++ '"' :: rest))
      rfl hfolding hstart hlost hcs (Nat.lt_of_succ_lt_succ hfuel)
    refine ⟨column, ?_⟩
    rw [double?_char hrest hfolding hstart hc, hread]
    simp [read]

end Quotation

/-! ### In the middle of a line -/

/-- A scanner in the middle of a line, outside of blocks and brackets. -/
structure Spot where
  /-- The characters to read. -/
  rest : List Char
  /-- The character read last. -/
  before : Option Char
  /-- The line. -/
  line : Nat
  /-- The column. -/
  column : Nat
  /-- The column of the last key or dash. -/
  margin : Nat
  /-- The number of spaces at the start of the line. -/
  spaces : Nat
  /-- How the line stands to the last key or dash. -/
  level : Level
  /-- The gathered characters, in reverse. -/
  text : List Char
  /-- All characters since the last token, in reverse. -/
  source : List Char
  /-- The tokens read, in reverse. -/
  tokens : List Token

namespace Spot

/-- The scanner of a spot. -/
def scanner (p : Spot) : Scanner where
  rest := p.rest
  before := p.before
  line := p.line
  column := p.column
  margin := p.margin
  spaces := p.spaces
  fresh := false
  level := p.level
  chars := p.text
  body := p.text.dropWhile isSpace
  source := p.source
  tokens := p.tokens

/-- The spot after a character that is gathered. -/
def next (c : Char) (p : Spot) : Spot :=
  { p with
    rest := p.rest.tail, before := some c, column := p.column + 1, text := c :: p.text
    source := c :: p.source }

variable {p : Spot} {c : Char} {cs ds : List Char}

/-- Once the line has begun, its first column does not count any more. -/
theorem step?_eq (p : Spot) (c : Char) :
    p.scanner.step? c = { p with level := .inside }.scanner.char? c := rfl

theorem plain_eq (hrest : p.rest = c :: cs) (hc : isSpace c = true → p.text ≠ []) :
    p.scanner.plain c = (p.next c).scanner := by
  cases hs : isSpace c with
  | true => simp [Scanner.plain, Scanner.gather, Scanner.pushBlank, Scanner.note, Scanner.move,
      Scanner.skip, scanner, next, hrest, hs, hc hs]
  | false => simp [Scanner.plain, Scanner.gather, Scanner.push, Scanner.note, Scanner.move,
      Scanner.skip, scanner, next, hrest, hs]

/-! ### Plain characters -/

theorem hasText_eq (p : Spot) : p.scanner.hasText = !(p.text.dropWhile isSpace).isEmpty := rfl

theorem isKeyEnd_eq (p : Spot) :
    p.scanner.isKeyEnd = p.rest.tail.head?.all fun d => isSpace d || isBreak d := rfl

/-- The characters that start no comment, end no line and are no tabs. -/
def isOrdinary (c : Char) : Bool := !("#\n\r\t".toList.contains c)

/-- Whether a colon that is read next ends a key. -/
def endsKey (p : Spot) : Bool := p.rest.tail.head?.all fun d => isSpace d || isBreak d

/-- Within a text almost every character is part of it. -/
theorem char?_eq_plain_of_text (htext : p.text.dropWhile isSpace ≠ []) (hlevel : p.level ≠ .deeper)
    (hcolumn : p.column ≠ 1) (hc : isOrdinary c = true) (hcolon : c = ':' → p.endsKey = false) :
    p.scanner.char? c = some (p.scanner.plain c) := by
  have hhas : p.scanner.hasText = true := by simpa [hasText_eq] using htext
  have hflow : p.scanner.inFlow = false := rfl
  have hlists : p.scanner.lists = 0 := rfl
  have hmaps : p.scanner.maps = 0 := rfl
  have hfresh : p.scanner.fresh = false := rfl
  have hdash : p.scanner.dash? = some (p.scanner.plain '-') := by
    have htriple : p.scanner.isTriple '-' = false := by
      simp [Scanner.isTriple, scanner, hcolumn]
    have hl : p.scanner.level ≠ .deeper := hlevel
    simp [Scanner.dash?, htriple, hhas, hl]
  have hpoint : p.scanner.isTriple '.' = false := by
    simp [Scanner.isTriple, scanner, hcolumn]
  unfold Scanner.char?
  split <;> simp_all [isOrdinary, isKeyEnd_eq, endsKey]

/-- The characters that do not start a plain scalar. -/
def isSign (c : Char) : Bool := "*&[\x7b\x7d],!|>%'\"@ \x60".toList.contains c

/-- Whether a dash that is read next stands before an item. -/
def opensItem (p : Spot) : Bool :=
  p.rest.tail.head?.all fun d => isSpace d || isBreak d || d == '\x00'

/-- What may be the first character of a plain scalar. -/
structure Starts (p : Spot) (c : Char) : Prop where
  /-- It has no meaning of its own anywhere. -/
  ordinary : isOrdinary c = true
  /-- It has none at the start of a scalar. -/
  sign : isSign c = false
  /-- It is no colon that ends a key. -/
  colon : c = ':' → p.endsKey = false
  /-- It is no dash before an item, and no part of a line of dashes. -/
  dash : c = '-' → p.opensItem = false ∧ p.column ≠ 1
  /-- It is no part of a line of points. -/
  point : c = '.' → p.column ≠ 1
  /-- It is no question mark before a key. -/
  question : c = '?' → p.rest.tail.head?.any isSpace = false

theorem char?_eq_plain_of_starts (htext : p.text = []) (h : p.Starts c) :
    p.scanner.char? c = some (p.scanner.plain c) := by
  obtain ⟨hordinary, hsign, hcolon, hdash, hpoint, hquestion⟩ := h
  have hhas : p.scanner.hasText = false := by simp [hasText_eq, htext]
  have hmaps : p.scanner.maps = 0 := rfl
  have hflow : p.scanner.inFlow = false := rfl
  have hrest : p.scanner.rest = p.rest := rfl
  have hdash' : c = '-' → p.scanner.dash? = some (p.scanner.plain '-') := by
    intro hc
    have htriple : p.scanner.isTriple '-' = false := by
      simp [Scanner.isTriple, scanner, (hdash hc).2]
    have hopens := (hdash hc).1
    rw [opensItem] at hopens
    simp only [Scanner.dash?, htriple, hhas, hrest, hopens, Bool.false_and, Bool.false_eq_true,
      if_false]
  have hpoint' : c = '.' → p.scanner.isTriple '.' = false := by
    intro hc
    simp [Scanner.isTriple, scanner, hpoint hc]
  unfold Scanner.char?
  split <;> simp_all [isOrdinary, isSign, isKeyEnd_eq, endsKey]

/-! ### Plain texts -/

/-- The spot after characters that are gathered. -/
def took (cs : List Char) (p : Spot) : Spot :=
  { p with
    rest := p.rest.drop cs.length, before := cs.getLast?.or p.before, level := .inside
    column := p.column + cs.length, text := cs.reverse ++ p.text, source := cs.reverse ++ p.source }

/-- The characters that go on with a text: none of them starts a comment, and no colon ends a key. -/
def Continues : List Char → Prop
  | [] => True
  | c :: cs =>
    isOrdinary c = true ∧ (c = ':' → cs.head?.all (fun d => isSpace d || isBreak d) = false) ∧
      Continues cs

theorem Continues.isBreak_eq_false {d : Char} (h : Continues cs) (hd : d ∈ cs) : isBreak d = false := by
  induction cs with
  | nil => simp at hd
  | cons c cs ih =>
    rcases List.mem_cons.1 hd with rfl | hd
    · have := h.1
      simp_all [isOrdinary, isBreak]
    · exact ih h.2.2 hd

theorem took_append (cs ds : List Char) (p : Spot) : p.took (cs ++ ds) = (p.took cs).took ds := by
  simp [took, List.drop_drop, Nat.add_assoc, Option.or_assoc, List.getLast?_append]

/-- One character of a text that has begun. -/
theorem scans_char (hrest : p.rest = c :: cs) (htext : p.text.dropWhile isSpace ≠ [])
    (hcolumn : 1 < p.column) (hc : isOrdinary c = true) (hcolon : c = ':' → p.endsKey = false) :
    Scanner.Scans p.scanner (p.took [c]).scanner := by
  have hplain : ({ p with level := .inside } : Spot).scanner.plain c = (p.took [c]).scanner := by
    have hne : p.text ≠ [] := by
      rintro hnil
      simp [hnil] at htext
    rw [plain_eq (p := { p with level := .inside }) hrest fun _ => hne]
    simp [next, took]
  refine .step hrest ?_ ?_
  · rw [step?_eq, ← hplain]
    exact char?_eq_plain_of_text (p := { p with level := .inside }) htext (by simp)
      (Nat.ne_of_gt hcolumn) hc hcolon
  · simp [took, scanner, hrest]

theorem endsKey_eq_false (hrest : p.rest = c :: (cs ++ ds)) (hcs : Continues (c :: cs)) (hc : c = ':') :
    p.endsKey = false := by
  have hhead := hcs.2.1 hc
  cases cs with
  | nil => simp at hhead
  | cons d cs => simpa [endsKey, hrest] using hhead

/-- A text that has begun goes on. -/
theorem scans_text (hne : cs ≠ []) (hrest : p.rest = cs ++ ds)
    (htext : p.text.dropWhile isSpace ≠ []) (hcolumn : 1 < p.column) (hcs : Continues cs) :
    Scanner.Scans p.scanner (p.took cs).scanner := by
  induction cs generalizing p with
  | nil => exact absurd rfl hne
  | cons c cs ih =>
    have hchar := scans_char hrest htext hcolumn hcs.1 (endsKey_eq_false hrest hcs)
    cases cs with
    | nil => exact hchar
    | cons d cs =>
      have htext' : (p.took [c]).text.dropWhile isSpace ≠ [] := by
        simp only [took, List.reverse_singleton, List.singleton_append, List.dropWhile_cons]
        split
        · exact htext
        · simp
      have hrest' : (p.took [c]).rest = (d :: cs) ++ ds := by simp [took, hrest]
      rw [← List.singleton_append, took_append]
      exact hchar.trans (ih (by simp) hrest' htext' (Nat.lt_succ_of_lt hcolumn) hcs.2.2)

/-- The characters of a plain scalar. -/
structure Plain (cs : List Char) : Prop where
  /-- None of them ends it. -/
  continues : Continues cs
  /-- The first of them starts it. -/
  starts : ∃ c ds, cs = c :: ds ∧ isSign c = false ∧
    (c = '-' → ds.head?.all (fun d => isSpace d || isBreak d || d == '\x00') = false) ∧
    (c = '?' → ds.head?.any isSpace = false)
  /-- The last of them is no blank. -/
  ends : cs.getLast?.any isSpace = false

theorem Starts.isSpace_eq_false (h : p.Starts c) : isSpace c = false := by
  have hordinary := h.ordinary
  have hsign := h.sign
  simp_all [isSpace, isSign, isOrdinary]

theorem scans_first (htext : p.text = []) (hrest : p.rest = c :: cs) (h : p.Starts c) :
    Scanner.Scans p.scanner (p.took [c]).scanner := by
  have hplain : ({ p with level := .inside } : Spot).scanner.plain c = (p.took [c]).scanner := by
    rw [plain_eq (p := { p with level := .inside }) hrest fun hs => by simp [h.isSpace_eq_false] at hs]
    simp [next, took]
  refine .step hrest ?_ ?_
  · rw [step?_eq, ← hplain]
    exact char?_eq_plain_of_starts (p := { p with level := .inside }) htext
      ⟨h.ordinary, h.sign, h.colon, h.dash, h.point, h.question⟩
  · simp [took, scanner, hrest]

/-- A plain scalar is gathered up to the end of its line. -/
theorem scans_plain (htext : p.text = []) (hcolumn : 1 < p.column) (hcs : Plain cs)
    (hrest : p.rest = cs ++ '\n' :: ds) : Scanner.Scans p.scanner (p.took cs).scanner := by
  obtain ⟨hcont, ⟨c, es, rfl, hsign, hdash, hquestion⟩, -⟩ := hcs
  rw [List.cons_append] at hrest
  have hne : p.column ≠ 1 := Nat.ne_of_gt hcolumn
  have hstarts : p.Starts c :=
    { ordinary := hcont.1
      sign := hsign
      colon := endsKey_eq_false hrest hcont
      dash := by
        intro hc
        have hhead := hdash hc
        refine ⟨?_, hne⟩
        cases es with
        | nil => simp at hhead
        | cons d es => simpa [opensItem, hrest] using hhead
      point := fun _ => hne
      question := by
        intro hc
        have hhead := hquestion hc
        cases es with
        | nil => simp [hrest, isSpace]
        | cons d es => simpa [hrest] using hhead }
  have hfirst := scans_first htext hrest hstarts
  cases es with
  | nil => exact hfirst
  | cons d es =>
    have htext' : (p.took [c]).text.dropWhile isSpace ≠ [] := by
      simp [took, hstarts.isSpace_eq_false]
    rw [← List.singleton_append, took_append]
    have hrest' : (p.took [c]).rest = d :: es ++ '\n' :: ds := by simp [took, hrest]
    exact hfirst.trans (scans_text (by simp) hrest' htext' (Nat.lt_succ_of_lt hcolumn) hcont.2.2)

/-! ### Keys and blanks -/

/-- A blank before a text is left out. -/
theorem scans_blank (htext : p.text = []) (hrest : p.rest = ' ' :: cs) :
    Scanner.Scans p.scanner
      { p with
        rest := cs, before := some ' ', column := p.column + 1, level := .inside
        source := ' ' :: p.source }.scanner := by
  refine .step hrest ?_ (by simp [scanner])
  rw [step?_eq]
  simp [Scanner.char?, Scanner.plain, Scanner.gather, Scanner.note, Scanner.move, Scanner.skip, scanner,
    htext, hrest, isSpace]

/-- The spot after a key and its colon. -/
def afterKey (p : Spot) (cs : List Char) : Spot :=
  { p with
    rest := cs, before := some ':', column := p.column + 1, level := .inside
    margin := p.column - p.text.length, text := [], source := []
    tokens := ⟨.colon, ⟨p.line, p.column⟩, []⟩ ::
      ⟨.scalar .plain (Text.ofChars p.text.reverse), ⟨p.line, p.column - p.text.length⟩,
        p.source.reverse⟩ :: p.tokens }

theorem startsWithTab_eq_false (h : '\t' ∉ p.source) : p.scanner.startsWithTab = false := by
  have hnot (cs : List Char) (hcs : ∀ c ∈ cs, c ∈ p.source) : cs.head? ≠ some '\t' :=
    fun hhead => h (hcs _ (List.mem_of_head? hhead))
  rw [Scanner.startsWithTab, decide_eq_false_iff_not]
  split
  · exact hnot _ fun c hc => List.mem_reverse.1 (List.mem_of_mem_tail hc)
  · exact hnot _ fun c hc => List.mem_reverse.1 hc

/-- A colon ends a key. -/
theorem scans_colon (hrest : p.rest = ':' :: cs) (hkey : p.endsKey = true)
    (htext : p.text.dropWhile isSpace = p.text) (hne : p.text ≠ []) (htab : '\t' ∉ p.source) :
    Scanner.Scans p.scanner (p.afterKey cs).scanner := by
  refine .step hrest ?_ (by simp [scanner, afterKey])
  let q : Spot := { p with level := .inside }
  have hends : q.scanner.isKeyEnd = true := hkey
  have hstarts : q.scanner.startsWithTab = false := startsWithTab_eq_false htab
  change (if q.scanner.isKeyEnd then q.scanner.key? else _) = _
  rw [if_pos hends, Scanner.key?, hstarts]
  simp [q, Scanner.takeText, Scanner.gathered, scanner, htext, hne, Scanner.emit, Scanner.move,
    Scanner.skip, Scanner.clear, Scanner.reset, hrest, afterKey, Scanner.textMark, Scanner.textStyle,
    Scanner.mark]

/-! ### Quoted texts -/

/-- A quoted text is a token of its own. -/
theorem scans_quoted (htext : p.text = []) (hcs : ∀ c ∈ cs, isBreak c = false ∧ c ≠ '\t')
    (hrest : p.rest = '"' :: cs.flatMap Text.escaped ++ '"' :: ds) :
    ∃ before column, Scanner.Scans p.scanner
      { p with
        rest := ds, before := before, column := column, level := .inside, text := [], source := []
        tokens := ⟨.scalar .quoted (Text.ofChars cs), ⟨p.line, p.column⟩,
          p.source.reverse ++ '"' :: cs.flatMap Text.escaped ++ ['"']⟩ :: p.tokens }.scanner := by
  let q : Quotation :=
    { rest := p.rest.tail, source := '"' :: p.source, line := p.line, column := p.column
      margin := p.margin }
  have hq : q.rest = cs.flatMap Text.escaped ++ '"' :: ds := congrArg List.tail hrest
  have hlen : cs.length < p.rest.length := by
    have := Text.length_le_escaped cs
    simp only [hrest, List.length_append, List.length_cons]
    omega
  obtain ⟨column, hread⟩ := Quotation.double?_escaped hq rfl rfl rfl hcs hlen
  have hdrop : p.rest.drop (p.rest.length - ds.length) = ds := by
    rw [List.append_cons] at hrest
    rw [hrest, List.length_append, Nat.add_sub_cancel, List.drop_left]
  have hhas : ({ p with level := .inside } : Spot).scanner.hasText = false := by
    simp [hasText_eq, htext]
  refine ⟨(p.rest.take (p.rest.length - ds.length)).getLast?.or p.before, column,
    .step hrest ?_ ?_⟩
  · change (if ({ p with level := .inside } : Spot).scanner.hasText then _ else
      ({ p with level := .inside } : Spot).scanner.quoted? '"') = _
    rw [hhas, Scanner.quoted?]
    dsimp only [q] at hread
    simp [scanner, hread, Scanner.skip, hdrop, Scanner.emit, Scanner.clear, Scanner.reset,
      Scanner.mark]
  · simp [scanner]
    omega

/-! ### The empty list -/

theorem scans_noItems (htext : p.text = []) (hrest : p.rest = '[' :: ']' :: cs) :
    Scanner.Scans p.scanner
      { p with
        rest := cs, before := some ']', column := p.column + 2, level := .inside, source := []
        tokens := ⟨.listEnd, ⟨p.line, p.column + 1⟩, []⟩ ::
          ⟨.listStart, ⟨p.line, p.column⟩, []⟩ :: p.tokens }.scanner := by
  -- after the opening bracket the scanner is at no spot
  let opened : Scanner :=
    { ({ p with
          rest := ']' :: cs, before := some '[', column := p.column + 1, level := .inside, source := []
          tokens := ⟨.listStart, ⟨p.line, p.column⟩, []⟩ :: p.tokens } : Spot).scanner with
      lists := 1 }
  have hopen : Scanner.Scans p.scanner opened := by
    refine .step hrest ?_ (by simp [opened, scanner])
    have hgathered : ({ p with level := .inside } : Spot).scanner.gathered = [] := by
      simp [Scanner.gathered, scanner, htext]
    have hsign := Scanner.emitSign_of_gathered hgathered hrest .listStart
    rw [step?_eq, Scanner.char?, hsign]
    simp [Scanner.hasText, Scanner.gathered, scanner, opened, Scanner.mark, htext]
  have hgathered : ({ opened with level := .inside } : Scanner).gathered = [] := by
    simp [Scanner.gathered, scanner, opened, htext]
  have hrest' : ({ opened with level := .inside } : Scanner).rest = ']' :: cs := rfl
  have hsign := Scanner.emitSign_of_gathered hgathered hrest' .listEnd
  refine hopen.trans (.step (c := ']') rfl ?_ (by simp [scanner]))
  change ({ opened with level := .inside } : Scanner).char? ']' = _
  rw [Scanner.char?, hsign]
  simp [Scanner.hasText, Scanner.gathered, scanner, opened, Scanner.mark, htext]

/-! ### Words -/

/-- The characters of words and numbers. -/
def isWordChar (c : Char) : Bool := c.isLower || c.isDigit || c == '_'

theorem not_mem_of_isWordChar (cs : List Char) (h : isWordChar c = true)
    (hcs : cs.any isWordChar = false) : c ∉ cs := fun hc => List.any_eq_false.1 hcs c hc h

theorem isOrdinary_of_isWordChar (h : isWordChar c = true) : isOrdinary c = true := by
  have := not_mem_of_isWordChar ['#', '\n', '\r', '\t'] h (by decide)
  simpa [isOrdinary] using this

theorem isSign_of_isWordChar (h : isWordChar c = true) : isSign c = false := by
  have := not_mem_of_isWordChar "*&[\x7b\x7d],!|>%'\"@ \x60".toList h (by decide)
  simpa [isSign] using this

theorem starts_of_isWordChar (h : isWordChar c = true) (p : Spot) : p.Starts c where
  ordinary := isOrdinary_of_isWordChar h
  sign := isSign_of_isWordChar h
  colon := by rintro rfl; simp [isWordChar] at h
  dash := by rintro rfl; simp [isWordChar] at h
  point := by rintro rfl; simp [isWordChar] at h
  question := by rintro rfl; simp [isWordChar] at h

theorem continues_of_isWordChar (h : ∀ c ∈ cs, isWordChar c = true) : Continues cs := by
  induction cs with
  | nil => trivial
  | cons c cs ih =>
    obtain ⟨hc, hcs⟩ := List.forall_mem_cons.1 h
    refine ⟨isOrdinary_of_isWordChar hc, ?_, ih hcs⟩
    rintro rfl
    simp [isWordChar] at hc

theorem isSpace_of_isWordChar (h : isWordChar c = true) : isSpace c = false := by
  have := not_mem_of_isWordChar [' ', '\t'] h (by decide)
  simpa [isSpace] using this

theorem dropWhile_isSpace_of_isWordChar (h : ∀ c ∈ cs, isWordChar c = true) :
    cs.dropWhile isSpace = cs := by
  cases cs with
  | nil => rfl
  | cons c cs => simp [isSpace_of_isWordChar (h c List.mem_cons_self)]

/-- A word is a plain scalar. -/
theorem plain_of_isWordChar (hne : cs ≠ []) (h : ∀ c ∈ cs, isWordChar c = true) : Plain cs where
  continues := continues_of_isWordChar h
  starts := by
    obtain ⟨c, ds, rfl⟩ := List.exists_cons_of_ne_nil hne
    have hc := h c List.mem_cons_self
    refine ⟨c, ds, rfl, isSign_of_isWordChar hc, ?_, ?_⟩
    · rintro rfl
      simp [isWordChar] at hc
    · rintro rfl
      simp [isWordChar] at hc
  ends := by
    cases hc : cs.getLast? with
    | none => rfl
    | some c => exact isSpace_of_isWordChar (h c (List.mem_of_getLast? hc))

/-- A word and a colon after it are a key. -/
theorem scans_key (hword : ∀ c ∈ cs ++ p.text, isWordChar c = true) (htext : p.text ≠ [])
    (hne : cs ≠ []) (hrest : p.rest = cs ++ ':' :: c :: ds) (hc : (isSpace c || isBreak c) = true)
    (hcolumn : 1 < p.column) (htab : '\t' ∉ p.source) :
    Scanner.Scans p.scanner ((p.took cs).afterKey (c :: ds)).scanner := by
  have hcs : ∀ c ∈ cs, isWordChar c = true := fun c hc => hword c (List.mem_append_left _ hc)
  have hbegun : p.text.dropWhile isSpace ≠ [] := by
    rw [dropWhile_isSpace_of_isWordChar fun c hc => hword c (List.mem_append_right _ hc)]
    exact htext
  have hword' : ∀ c ∈ (p.took cs).text, isWordChar c = true := by
    intro c hc
    exact hword c (by simpa [took] using hc)
  refine (scans_text hne hrest hbegun hcolumn (continues_of_isWordChar hcs)).trans
    (scans_colon ?_ ?_ ?_ ?_ ?_)
  · simp [took, hrest]
  · simpa [endsKey, took, hrest] using hc
  · exact dropWhile_isSpace_of_isWordChar hword'
  · simp [took, hne]
  · simp only [took, List.mem_append, List.mem_reverse, not_or]
    exact ⟨fun hmem => by simpa [isWordChar] using hcs _ hmem, htab⟩

end Spot

end Yaml

end CallByValue
