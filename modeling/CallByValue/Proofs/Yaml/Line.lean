import CallByValue.Proofs.Yaml.Scan

/-!
# Lines of a document

A document that is made of lines with a key and a value each is read line by line.  A plain scalar at
the end of a line might go on with the next one, so its token comes only when the next line has begun:
a `Pause` is the scanner between two lines, with the text that is pending.  The next line does not go
on with it if it starts no further to the right than the key before (`Line.Chained`).

Hence such a document gives the tokens of its lines in their places (`tokens?_lines`), if all lines are
of the kind that the scanner takes as they are meant (`Line.Fits`).  A value that starts with a question
mark and a blank is not of that kind, and it makes the scanner refuse the document (`tokens?_eq_none`).
-/

namespace CallByValue

namespace Yaml

/-! ### Places -/

/-- What a token is and where it starts. -/
def Token.place (t : Token) : TokenKind × Mark := (t.kind, t.mark)

/-- The characters of a token on one line, with white space around them. -/
def OneLine (cs : List Char) : Prop :=
  ∃ front middle back, cs = front ++ middle ++ back ∧ (∀ c ∈ front, (isSpace c || isBreak c) = true) ∧
    (∀ c ∈ middle, isBreak c = false) ∧ ∀ c ∈ back, (isSpace c || isBreak c) = true

/-- The tokens, in reverse, have the given places, and each stands on one line. -/
structure Places (ts : List Token) (ps : List (TokenKind × Mark)) : Prop where
  /-- Their places. -/
  eq : ts.reverse.map Token.place = ps
  /-- Each stands on one line. -/
  oneLine : ∀ t ∈ ts, OneLine t.source

theorem Places.cons {ts : List Token} {ps : List (TokenKind × Mark)} (h : Places ts ps) {t : Token}
    (ht : OneLine t.source) : Places (t :: ts) (ps ++ [t.place]) where
  eq := by simp [h.eq]
  oneLine := List.forall_mem_cons.2 ⟨ht, h.oneLine⟩

theorem oneLine_nil : OneLine [] := ⟨[], [], [], by simp⟩

theorem OneLine.snoc {cs : List Char} {c : Char} (h : OneLine cs)
    (hc : (isSpace c || isBreak c) = true) : OneLine (cs ++ [c]) := by
  obtain ⟨front, middle, back, rfl, hfront, hmiddle, hback⟩ := h
  refine ⟨front, middle, back ++ [c], by simp, hfront, hmiddle, fun d hd => ?_⟩
  rcases List.mem_append.1 hd with hd | hd
  · exact hback d hd
  · exact List.mem_singleton.1 hd ▸ hc

/-! ### After a key -/

namespace Spot

/-- A spot right after the colon of a key, after tokens in the given places. -/
structure AtValue (p : Spot) (rest : List Char) (line column margin : Nat)
    (ps : List (TokenKind × Mark)) : Prop where
  /-- What is to be read. -/
  rest : p.rest = rest
  /-- The line. -/
  line : p.line = line
  /-- The column. -/
  column : p.column = column
  /-- The column of the key. -/
  margin : p.margin = margin
  /-- Nothing has been gathered. -/
  text : p.text = []
  /-- Nothing has been read since the colon. -/
  source : p.source = []
  /-- The tokens. -/
  places : Places p.tokens ps

/-- The places of a key and its colon. -/
def keyPlaces (key : List Char) (line column : Nat) : List (TokenKind × Mark) :=
  [(.scalar .plain (Text.ofChars key), ⟨line, column⟩), (.colon, ⟨line, column + key.length⟩)]

variable {p : Spot} {c d : Char} {cs ds src : List Char} {ps : List (TokenKind × Mark)}

/-- From the second character of a key on. -/
theorem exists_atValue (htext : p.text = [c]) (hsource : p.source = c :: src)
    (hblank : ∀ x ∈ src, x = ' ' ∨ x = '\n') (hplaces : Places p.tokens ps)
    (hword : ∀ x ∈ c :: cs, isWordChar x = true) (hne : cs ≠ [])
    (hrest : p.rest = cs ++ ':' :: d :: ds) (hd : (isSpace d || isBreak d) = true) {column : Nat}
    (hcolumn : p.column = column + 1) (hpos : 0 < column) :
    ∃ q : Spot, Scanner.Scans p.scanner q.scanner ∧
      q.AtValue (d :: ds) p.line (column + cs.length + 2) column
        (ps ++ keyPlaces (c :: cs) p.line column) := by
  have hkey : OneLine (src.reverse ++ (c :: cs)) := by
    refine ⟨src.reverse, c :: cs, [], by simp, fun x hx => ?_, fun x hx => ?_, by simp⟩
    · rcases hblank x (List.mem_reverse.1 hx) with rfl | rfl <;> rfl
    · have := not_mem_of_isWordChar ['\n', '\r'] (hword x hx) (by decide)
      simpa [isBreak] using this
  have htab : '\t' ∉ p.source := by
    rw [hsource]
    intro hmem
    rcases List.mem_cons.1 hmem with rfl | hmem
    · simpa [isWordChar] using hword '\t' List.mem_cons_self
    · rcases hblank _ hmem with h | h <;> simp at h
  refine ⟨_, scans_key ?_ (by simp [htext]) hne hrest hd (by omega) htab, ?_⟩
  · intro x hx
    exact hword x (by simpa [htext, or_comm] using hx)
  · have hlast := (hplaces.cons (t := ⟨.scalar .plain (Text.ofChars (c :: cs)), ⟨p.line, column⟩,
      src.reverse ++ (c :: cs)⟩) hkey).cons
        (t := ⟨.colon, ⟨p.line, column + (c :: cs).length⟩, []⟩) oneLine_nil
    have hend : p.column + cs.length = column + (cs.length + 1) := by omega
    constructor
    · rfl
    · rfl
    · exact congrArg (· + 1) hend
    · simp [afterKey, took, htext, hend]
    · rfl
    · rfl
    · simpa [afterKey, took, htext, hsource, keyPlaces, Token.place, hend] using hlast

end Spot

/-! ### Between two lines -/

/-- A scanner at the start of a line, after some spaces. -/
structure Pause where
  /-- The characters to read. -/
  rest : List Char
  /-- The character read last. -/
  before : Option Char
  /-- The line. -/
  line : Nat
  /-- The column of the last key or dash. -/
  margin : Nat
  /-- The number of spaces. -/
  spaces : Nat
  /-- How the line before stood to the last key or dash. -/
  level : Level
  /-- The text at the end of the line before, in reverse, with its place, if it could go on. -/
  pending : Option (List Char × Mark)
  /-- All characters since the last token, in reverse. -/
  source : List Char
  /-- The tokens read, in reverse. -/
  tokens : List Token

namespace Pause

/-- The scanner of a pause. -/
def scanner (p : Pause) : Scanner where
  rest := p.rest
  before := p.before
  line := p.line
  column := p.spaces + 1
  margin := p.margin
  spaces := p.spaces
  fresh := true
  level := p.level
  saved := p.pending.map Prod.snd
  chars := (p.pending.map fun t => ' ' :: t.1).getD []
  body := (p.pending.map Prod.fst).getD []
  source := p.source
  tokens := p.tokens

/-- The tokens, with that of the pending text. -/
def allTokens (p : Pause) : List Token :=
  (p.pending.map fun t =>
    (⟨.scalar .plain (Text.ofChars t.1.reverse), t.2, p.source.reverse⟩ : Token)).toList ++ p.tokens

/-- The spot at the first character of the line that is no space. -/
def spot (p : Pause) (level : Level) : Spot where
  rest := p.rest
  before := p.before
  line := p.line
  column := p.spaces + 1
  margin := p.margin
  spaces := p.spaces
  level := level
  text := []
  source := if p.pending.isSome then [] else p.source
  tokens := p.allTokens

/-- A pause at a line that does not go on with a text before it, after tokens in the given places. -/
structure After (p : Pause) (ps : List (TokenKind × Mark)) : Prop where
  /-- The tokens. -/
  places : Places p.allTokens ps
  /-- A pending text is not empty, and it belongs to a key. -/
  pending : ∀ t ∈ p.pending, t.1 ≠ [] ∧ p.margin ≠ 0
  /-- The line before is over. -/
  level : p.level ≠ .outer
  /-- Since the last token there were only blanks, if there is no pending text. -/
  source : p.pending = none → ∀ c ∈ p.source, c = ' ' ∨ c = '\n'

variable {p : Pause} {c d : Char} {cs ds : List Char} {ps : List (TokenKind × Mark)}

theorem pending_eq_none (h : p.After ps) (h0 : p.margin = 0) : p.pending = none := by
  rw [Option.eq_none_iff_forall_ne_some]
  exact fun t ht => (h.pending t ht).2 h0

theorem blank_source (h : p.After ps) (level : Level) :
    ∀ c ∈ (p.spot level).source, c = ' ' ∨ c = '\n' := by
  intro c hc
  cases hp : p.pending with
  | none => exact h.source hp c (by simpa [spot, hp] using hc)
  | some t => simp [spot, hp] at hc

/-- What ends the text before a line. -/
theorem flush_eq (h : p.After ps) :
    { p.scanner with fresh := false, level := .outer }.flush = (p.spot .outer).scanner := by
  have hpending := h.pending
  rcases hp : p.pending with - | ⟨t, m⟩
  · simp [Scanner.flush, Scanner.takeText, Scanner.gathered, scanner, spot, Spot.scanner, allTokens, hp]
  · have ht : t ≠ [] := (hpending (t, m) hp).1
    simp [Scanner.flush, Scanner.takeText, Scanner.gathered, Scanner.textStyle, Scanner.textMark,
      Scanner.emit, Scanner.reset, scanner, spot, Spot.scanner, allTokens, hp, ht]

/-- The first character of a line that is no space ends the text before it. -/
theorem step?_eq (h : p.After ps) (hmargin : p.margin ≠ 0 → p.spaces + 1 ≤ p.margin)
    (hbreak : isBreak c = false) (hspace : isSpace c = false) :
    ∃ level, p.scanner.step? c = (p.spot level).scanner.char? c := by
  have hblank : c ≠ ' ' ∧ c ≠ '\t' := by simpa [isSpace] using hspace
  -- before the first key there is no margin, and nothing can be pending
  by_cases h0 : p.margin = 0
  · refine ⟨p.level, ?_⟩
    have hsettle : p.scanner.settle c = (p.spot p.level).scanner := by
      simp [Scanner.settle, scanner, spot, Spot.scanner, hbreak, hblank, h0, allTokens,
        pending_eq_none h h0]
    rw [Scanner.step?_of_ne_outer] <;> rw [hsettle]
    · rfl
    · exact h.level
  · refine ⟨.outer, ?_⟩
    have hsettle : p.scanner.settle c = { p.scanner with fresh := false, level := .outer } := by
      have hlt : ¬ p.margin < p.spaces + 1 := Nat.not_lt.2 (hmargin h0)
      simp [Scanner.settle, scanner, hbreak, hblank, h0, hlt]
    rw [Scanner.step?_of_outer] <;> rw [hsettle]
    · rw [flush_eq h]
    · rfl

/-- The pause after one more space. -/
def afterSpace (p : Pause) (cs : List Char) : Pause :=
  { p with rest := cs, before := some ' ', spaces := p.spaces + 1, source := ' ' :: p.source }

theorem After.space (h : p.After ps) (cs : List Char) : (p.afterSpace cs).After ps := by
  refine ⟨?_, h.pending, h.level, fun hp => ?_⟩
  · obtain ⟨heq, hone⟩ := h.places
    rcases hp : p.pending with - | ⟨t, m⟩
    · simp only [allTokens, hp, afterSpace] at heq hone ⊢
      exact ⟨heq, hone⟩
    · simp only [allTokens, hp, Option.map_some, Option.toList_some, List.singleton_append] at heq hone
      obtain ⟨hfirst, hothers⟩ := List.forall_mem_cons.1 hone
      refine ⟨by simpa [allTokens, afterSpace, hp, Token.place] using heq, ?_⟩
      simp only [allTokens, afterSpace, hp, Option.map_some, Option.toList_some, List.singleton_append,
        List.reverse_cons]
      exact List.forall_mem_cons.2 ⟨hfirst.snoc rfl, hothers⟩
  · exact List.forall_mem_cons.2 ⟨.inl rfl, h.source hp⟩

theorem scans_space (hlevel : p.level ≠ .outer) (hrest : p.rest = ' ' :: cs) :
    Scanner.Scans p.scanner (p.afterSpace cs).scanner := by
  have hsettle : p.scanner.settle ' ' = { p.scanner with spaces := p.spaces + 1 } := by
    simp [Scanner.settle, scanner, isBreak]
  refine .step hrest ?_ (by simp [afterSpace, scanner])
  rw [Scanner.step?_of_ne_outer] <;> rw [hsettle]
  · simp [Scanner.char?, Scanner.note, Scanner.move, Scanner.skip, afterSpace, scanner, hrest]
  · rfl
  · exact hlevel

/-- The key of a line without a dash. -/
theorem exists_atValue (h : p.After ps) (hmargin : p.margin ≠ 0 → p.spaces + 1 ≤ p.margin)
    (hword : ∀ x ∈ c :: cs, Spot.isWordChar x = true) (hne : cs ≠ [])
    (hrest : p.rest = c :: cs ++ ':' :: d :: ds) (hd : (isSpace d || isBreak d) = true) :
    ∃ q : Spot, Scanner.Scans p.scanner q.scanner ∧
      q.AtValue (d :: ds) p.line (p.spaces + 1 + cs.length + 2) (p.spaces + 1)
        (ps ++ Spot.keyPlaces (c :: cs) p.line (p.spaces + 1)) := by
  have hc := hword c List.mem_cons_self
  have hbreak : isBreak c = false := by
    have := Spot.not_mem_of_isWordChar ['\n', '\r'] hc (by decide)
    simpa [isBreak] using this
  have hspace := (Spot.starts_of_isWordChar hc (p.spot .inside)).isSpace_eq_false
  obtain ⟨level, hstep⟩ := step?_eq h hmargin hbreak hspace
  let first : Spot := (p.spot level).next c
  have hfirst : Scanner.Scans p.scanner first.scanner := by
    refine .step hrest ?_ (by simp [first, Spot.next, spot, Spot.scanner, hrest])
    rw [hstep, Spot.char?_eq_plain_of_starts rfl (Spot.starts_of_isWordChar hc _)]
    rw [Spot.plain_eq (p := p.spot level) hrest fun hs => by simp [hspace] at hs]
  have hrest' : first.rest = cs ++ ':' :: d :: ds := by simp [first, Spot.next, spot, hrest]
  obtain ⟨q, hscan, hq⟩ := Spot.exists_atValue (p := first) rfl rfl (blank_source h level) h.places
    hword hne hrest' hd rfl (Nat.succ_pos _)
  exact ⟨q, hfirst.trans hscan, hq⟩

/-- The spot after the dash of an item. -/
def afterDash (p : Pause) (level : Level) (cs : List Char) : Spot :=
  { p.spot level with
    rest := cs, before := some '-', column := p.spaces + 2, margin := p.spaces + 1, source := []
    tokens := ⟨.dash, ⟨p.line, p.spaces + 1⟩, []⟩ :: p.allTokens }

/-- A dash before a blank starts an item. -/
theorem scans_dash (h : p.After ps) (hmargin : p.margin ≠ 0 → p.spaces + 1 ≤ p.margin)
    (hrest : p.rest = '-' :: ' ' :: cs) :
    ∃ level, Scanner.Scans p.scanner (p.afterDash level (' ' :: cs)).scanner := by
  obtain ⟨level, hstep⟩ := step?_eq (c := '-') h hmargin rfl rfl
  refine ⟨level, .step hrest ?_ (by simp [afterDash, Spot.scanner])⟩
  have hgathered : (p.spot level).scanner.gathered = [] := rfl
  have hsign := Scanner.emitSign_of_gathered hgathered hrest .dash
  have htab : (p.spot level).scanner.startsWithTab = false := by
    refine Spot.startsWithTab_eq_false fun hmem => ?_
    rcases blank_source h level _ hmem with h | h <;> simp at h
  have htriple : (p.spot level).scanner.isTriple '-' = false := by
    simp [Scanner.isTriple, Scanner.runLength, spot, Spot.scanner, hrest]
  have hnext : (p.spot level).scanner.rest.tail.head? = some ' ' := by
    simp [spot, Spot.scanner, hrest]
  rw [hstep, Scanner.char?, Scanner.dash?, hsign]
  simp only [hnext, htab, htriple, Scanner.hasText, hgathered, Bool.false_and, Bool.false_eq_true,
    if_false, List.isEmpty_nil, Bool.not_true, Option.all_some]
  rfl

/-- The key of a line with a dash. -/
theorem exists_atValue_of_dash (h : p.After ps) (hmargin : p.margin ≠ 0 → p.spaces + 1 ≤ p.margin)
    (hword : ∀ x ∈ c :: cs, Spot.isWordChar x = true) (hne : cs ≠ [])
    (hrest : p.rest = '-' :: ' ' :: c :: cs ++ ':' :: d :: ds) (hd : (isSpace d || isBreak d) = true) :
    ∃ q : Spot, Scanner.Scans p.scanner q.scanner ∧
      q.AtValue (d :: ds) p.line (p.spaces + 3 + cs.length + 2) (p.spaces + 3)
        (ps ++ (.dash, ⟨p.line, p.spaces + 1⟩) ::
          Spot.keyPlaces (c :: cs) p.line (p.spaces + 3)) := by
  have hc := hword c List.mem_cons_self
  obtain ⟨level, hdash⟩ := scans_dash h hmargin hrest
  let item : Spot := { p.afterDash level [] with
    rest := c :: (cs ++ ':' :: d :: ds), before := some ' ', column := p.spaces + 3, level := .inside
    source := [' '] }
  have hblank : Scanner.Scans _ item.scanner :=
    Spot.scans_blank (p := p.afterDash level (' ' :: (c :: cs ++ ':' :: d :: ds))) rfl rfl
  have hfirst := Spot.scans_first (p := item) rfl rfl (Spot.starts_of_isWordChar hc _)
  obtain ⟨q, hscan, hq⟩ := Spot.exists_atValue (p := item.took [c]) rfl rfl (by simp [item])
    (h.places.cons oneLine_nil) hword hne rfl hd rfl (Nat.succ_pos _)
  refine ⟨q, hdash.trans (hblank.trans (hfirst.trans hscan)), ?_⟩
  simpa [Token.place, Spot.took, item, afterDash, spot] using hq

/-- The pause at the start of the line after a spot. -/
def ofSpot (p : Spot) (rest : List Char) : Pause where
  rest := rest
  before := some '\n'
  line := p.line + 1
  margin := p.margin
  spaces := 0
  level := .inside
  pending := none
  source := ['\n']
  tokens := p.tokens

end Pause

namespace Spot

variable {p : Spot} {cs : List Char}

/-- A line end where nothing has been gathered. -/
theorem scans_newline (htext : p.text = []) (hsource : p.source = []) (hrest : p.rest = '\n' :: cs) :
    Scanner.Scans p.scanner (Pause.ofSpot p cs).scanner := by
  refine .step hrest ?_ (by simp [Pause.ofSpot, Pause.scanner])
  rw [step?_eq]
  cases cs <;>
    simp [Scanner.char?, Scanner.breakLine?, scanner, htext, hsource, hrest, Scanner.atEnd,
      Scanner.flush, Scanner.takeText, Scanner.gathered, Scanner.hasText, Scanner.gather, Scanner.note,
      Scanner.nextLine, Scanner.skip, Pause.ofSpot, Pause.scanner, isSpace]

variable (hne : p.text ≠ []) (htext : p.text.dropWhile isSpace = p.text)
  (hsource : p.source.head?.any isSpace = false)

include hne htext hsource

/-- A line end after a text that could go on with the next line. -/
theorem scans_newline_pending {d : Char} (hrest : p.rest = '\n' :: d :: cs) :
    Scanner.Scans p.scanner
      { Pause.ofSpot p (d :: cs) with
        pending := some (p.text, ⟨p.line, p.column - p.text.length⟩)
        source := '\n' :: p.source }.scanner := by
  refine .step hrest ?_ (by simp [Pause.ofSpot, Pause.scanner])
  rw [step?_eq]
  simp [Scanner.char?, Scanner.breakLine?, scanner, htext, hsource, hrest, Scanner.atEnd, hne,
    Scanner.gathered, Scanner.gather, Scanner.note, Scanner.pushBlank,
    Scanner.nextLine, Scanner.skip, Pause.ofSpot, Pause.scanner, isSpace]

/-- The line end at the end of a document. -/
theorem scans_newline_last (hrest : p.rest = ['\n']) :
    Scanner.Scans p.scanner
      { Pause.ofSpot p [] with
        tokens := ⟨.scalar .plain (Text.ofChars p.text.reverse), ⟨p.line, p.column - p.text.length⟩,
          p.source.reverse⟩ :: p.tokens }.scanner := by
  refine .step hrest ?_ (by simp [Pause.ofSpot, Pause.scanner])
  rw [step?_eq]
  simp [Scanner.char?, Scanner.breakLine?, scanner, htext, hsource, hrest, Scanner.atEnd, hne,
    Scanner.flush, Scanner.takeText, Scanner.gathered, Scanner.textMark, Scanner.textStyle,
    Scanner.emit, Scanner.reset, Scanner.hasText, Scanner.gather, Scanner.note,
    Scanner.nextLine, Scanner.skip, Pause.ofSpot, Pause.scanner, isSpace]

omit hne htext hsource

end Spot

/-! ### Values -/

/-- What stands on a line after the colon of a key. -/
inductive Value where
  /-- Nothing. -/
  | nothing
  /-- A plain scalar. -/
  | plain (cs : List Char)
  /-- A text in quotes. -/
  | quoted (cs : List Char)
  /-- The list without items. -/
  | noItems

namespace Value

/-- The characters of a value, from the colon on. -/
def chars : Value → List Char
  | nothing => []
  | plain cs => ' ' :: cs
  | quoted cs => ' ' :: '"' :: cs.flatMap Text.escaped ++ ['"']
  | noItems => [' ', '[', ']']

/-- The tokens of a value after a colon before the given place. -/
def places (line column : Nat) : Value → List (TokenKind × Mark)
  | nothing => []
  | plain cs => [(.scalar .plain (Text.ofChars cs), ⟨line, column + 1⟩)]
  | quoted cs => [(.scalar .quoted (Text.ofChars cs), ⟨line, column + 1⟩)]
  | noItems => [(.listStart, ⟨line, column + 1⟩), (.listEnd, ⟨line, column + 2⟩)]

/-- The values that are read as they are meant. -/
def Fits : Value → Prop
  | nothing => True
  | plain cs => Spot.Plain cs
  | quoted cs => ∀ c ∈ cs, isBreak c = false ∧ c ≠ '\t'
  | noItems => True

end Value

namespace Pause

/-- A pause at the start of the given line. -/
structure AtLine (p : Pause) (rest : List Char) (line margin : Nat) (ps : List (TokenKind × Mark)) :
    Prop extends p.After ps where
  /-- What is to be read. -/
  rest : p.rest = rest
  /-- The line. -/
  line : p.line = line
  /-- The column of the last key. -/
  margin : p.margin = margin
  /-- No space has been read. -/
  spaces : p.spaces = 0

end Pause

namespace Spot

variable {p : Spot} {line column margin : Nat} {cs ds : List Char} {ps : List (TokenKind × Mark)}

theorem atLine_ofSpot (h : Places p.tokens ps) (hrest : p.rest = '\n' :: cs) (htext : p.text = [])
    (hsource : p.source = []) :
    ∃ q : Pause, Scanner.Scans p.scanner q.scanner ∧ q.AtLine cs (p.line + 1) p.margin ps := by
  refine ⟨_, scans_newline htext hsource hrest, ⟨h, ?_, ?_, ?_⟩, rfl, rfl, rfl, rfl⟩
  · simp [Pause.ofSpot]
  · simp [Pause.ofSpot]
  · simp [Pause.ofSpot]

/-- A text at the end of a line stays pending, unless the document ends there. -/
theorem atLine_of_text (h : Places p.tokens ps) (hrest : p.rest = '\n' :: cs) (hne : p.text ≠ [])
    (htext : p.text.dropWhile isSpace = p.text) (hsource : p.source.head?.any isSpace = false)
    (hone : OneLine p.source.reverse) (hmargin : p.margin ≠ 0) :
    ∃ q : Pause, Scanner.Scans p.scanner q.scanner ∧ q.AtLine cs (p.line + 1) p.margin
      (ps ++ [(.scalar .plain (Text.ofChars p.text.reverse), ⟨p.line, p.column - p.text.length⟩)]) := by
  cases cs with
  | nil =>
    refine ⟨_, scans_newline_last hne htext hsource hrest, ⟨h.cons hone, ?_, ?_, ?_⟩, rfl, rfl, rfl,
      rfl⟩
    · simp [Pause.ofSpot]
    · simp [Pause.ofSpot]
    · simp [Pause.ofSpot]
  | cons d cs =>
    have hone' : OneLine ('\n' :: p.source).reverse := by
      rw [List.reverse_cons]
      exact hone.snoc rfl
    refine ⟨_, scans_newline_pending hne htext hsource hrest, ⟨h.cons hone', ?_, ?_, ?_⟩, rfl, rfl, rfl,
      rfl⟩
    · simp [Pause.ofSpot, hne, hmargin]
    · simp [Pause.ofSpot]
    · simp

theorem AtValue.scans_nothing (h : p.AtValue ('\n' :: ds) line column margin ps) :
    ∃ q : Pause, Scanner.Scans p.scanner q.scanner ∧ q.AtLine ds (line + 1) margin ps := by
  obtain ⟨hrest, rfl, rfl, rfl, htext, hsource, hplaces⟩ := h
  exact atLine_ofSpot hplaces hrest htext hsource

/-- The spot after the blank behind a colon. -/
def afterBlank (p : Spot) (cs : List Char) : Spot :=
  { p with
    rest := cs, before := some ' ', column := p.column + 1, level := .inside, source := [' '] }

theorem AtValue.scans_blank (h : p.AtValue (' ' :: cs) line column margin ps) :
    Scanner.Scans p.scanner (p.afterBlank cs).scanner := by
  simpa [afterBlank, h.source] using Spot.scans_blank h.text h.rest

theorem AtValue.scans_quoted
    (h : p.AtValue ((Value.quoted cs).chars ++ '\n' :: ds) line column margin ps) (hcs : (Value.quoted cs).Fits) :
    ∃ q : Pause, Scanner.Scans p.scanner q.scanner ∧
      q.AtLine ds (line + 1) margin (ps ++ (Value.quoted cs).places line column) := by
  let opened : Spot := p.afterBlank ('"' :: cs.flatMap Text.escaped ++ '"' :: '\n' :: ds)
  have hblank : Scanner.Scans p.scanner opened.scanner := by
    simpa [Value.chars, opened] using h.scans_blank
  obtain ⟨-, rfl, rfl, rfl, htext, hsource, hplaces⟩ := h
  obtain ⟨before, column, hquoted⟩ := Spot.scans_quoted (p := opened) htext hcs rfl
  have hone : OneLine ([' '] ++ '"' :: cs.flatMap Text.escaped ++ ['"']) := by
    refine ⟨[' '], '"' :: cs.flatMap Text.escaped ++ ['"'], [], by simp, by simp [isSpace], ?_, by simp⟩
    intro c hc
    rcases List.mem_append.1 hc with hc | hc
    · rcases List.mem_cons.1 hc with rfl | hc
      · rfl
      · obtain ⟨d, hd, hc⟩ := List.mem_flatMap.1 hc
        rcases Text.mem_escaped hc with rfl | rfl
        · rfl
        · exact (hcs c hd).1
    · obtain rfl := List.mem_singleton.1 hc
      rfl
  obtain ⟨q, hscan, hq⟩ := atLine_ofSpot (p := { opened with
    rest := '\n' :: ds, before := before, column := column, level := .inside, text := [], source := []
    tokens := ⟨.scalar .quoted (Text.ofChars cs), ⟨p.line, p.column + 1⟩, _⟩ :: p.tokens })
    (hplaces.cons hone) rfl rfl rfl
  exact ⟨q, hblank.trans (hquoted.trans hscan), hq⟩

theorem AtValue.scans_noItems
    (h : p.AtValue (Value.noItems.chars ++ '\n' :: ds) line column margin ps) :
    ∃ q : Pause, Scanner.Scans p.scanner q.scanner ∧
      q.AtLine ds (line + 1) margin (ps ++ Value.noItems.places line column) := by
  let opened : Spot := p.afterBlank ('[' :: ']' :: '\n' :: ds)
  have hblank : Scanner.Scans p.scanner opened.scanner := h.scans_blank
  obtain ⟨-, rfl, rfl, rfl, htext, hsource, hplaces⟩ := h
  have hitems := Spot.scans_noItems (p := opened) htext rfl
  obtain ⟨q, hscan, hq⟩ := atLine_ofSpot (p := { opened with
    rest := '\n' :: ds, before := some ']', column := opened.column + 2, level := .inside, source := []
    tokens := ⟨.listEnd, ⟨p.line, p.column + 1 + 1⟩, []⟩ ::
      ⟨.listStart, ⟨p.line, p.column + 1⟩, []⟩ :: p.tokens })
    ((hplaces.cons oneLine_nil).cons oneLine_nil) rfl htext rfl
  refine ⟨q, hblank.trans (hitems.trans hscan), ?_⟩
  rw [List.append_assoc] at hq
  exact hq

/-- A plain scalar and the end of its line. -/
theorem AtValue.scans_plain (h : p.AtValue ((Value.plain cs).chars ++ '\n' :: ds) line column margin ps)
    (hcs : (Value.plain cs).Fits) (hcolumn : 0 < column) (hmargin : margin ≠ 0) :
    ∃ q : Pause, Scanner.Scans p.scanner q.scanner ∧
      q.AtLine ds (line + 1) margin (ps ++ (Value.plain cs).places line column) := by
  let opened : Spot := p.afterBlank (cs ++ '\n' :: ds)
  have hblank : Scanner.Scans p.scanner opened.scanner := h.scans_blank
  obtain ⟨-, rfl, rfl, rfl, htext, hsource, hplaces⟩ := h
  have hplain := Spot.scans_plain (p := opened) htext (Nat.succ_lt_succ hcolumn) hcs rfl
  have hlast : (opened.took cs).text = cs.reverse := by simp [took, opened, afterBlank, htext]
  have hhead : cs.reverse.head?.any isSpace = false := by
    rw [List.head?_reverse]
    exact hcs.ends
  obtain ⟨c, es, hrev⟩ : ∃ c es, cs.reverse = c :: es := by
    obtain ⟨c, es, rfl, -⟩ := hcs.starts
    exact List.exists_cons_of_ne_nil (by simp)
  rw [hrev] at hlast hhead
  have hone : OneLine (opened.took cs).source.reverse := by
    refine ⟨[' '], cs, [], by simp [took, opened, afterBlank], by simp [isSpace], ?_, by simp⟩
    exact fun c hc => hcs.continues.isBreak_eq_false hc
  have hdrop : (opened.took cs).text.dropWhile isSpace = (opened.took cs).text := by
    have hc : isSpace c = false := by simpa using hhead
    rw [hlast, List.dropWhile_cons_of_neg (by simp [hc])]
  have hsource' : (opened.took cs).source.head?.any isSpace = false := by
    simpa [took, hrev] using hhead
  have hrest : (opened.took cs).rest = '\n' :: ds := by simp [took, opened, afterBlank]
  obtain ⟨q, hscan, hq⟩ := atLine_of_text (p := opened.took cs) hplaces hrest (by simp [hlast]) hdrop
    hsource' hone hmargin
  refine ⟨q, hblank.trans (hplain.trans hscan), ?_⟩
  rw [hlast, ← hrev] at hq
  simpa [Value.places, took, opened, afterBlank] using hq

end Spot

/-! ### Lines -/

/-- What stands on a line before its key. -/
inductive Lead where
  /-- Nothing. -/
  | none
  /-- The dash of an item. -/
  | dash
  /-- As many blanks as a dash takes. -/
  | indent
  deriving DecidableEq

namespace Lead

/-- The characters. -/
def chars : Lead → List Char
  | none => []
  | dash => ['-', ' ']
  | indent => [' ', ' ']

/-- The column of the first character that is no space. -/
def start : Lead → Nat
  | none => 1
  | dash => 1
  | indent => 3

/-- The column of the key. -/
def column : Lead → Nat
  | none => 1
  | dash => 3
  | indent => 3

/-- The tokens. -/
def places (line : Nat) : Lead → List (TokenKind × Mark)
  | dash => [(.dash, ⟨line, 1⟩)]
  | _ => []

end Lead

/-- A line with a key and a value. -/
structure Line where
  /-- What stands before the key. -/
  lead : Lead
  /-- The key. -/
  key : List Char
  /-- The value. -/
  value : Value

namespace Line

/-- The characters of a line. -/
def chars (l : Line) : List Char := l.lead.chars ++ l.key ++ ':' :: l.value.chars ++ ['\n']

/-- The tokens of a line. -/
def places (n : Nat) (l : Line) : List (TokenKind × Mark) :=
  l.lead.places n ++ Spot.keyPlaces l.key n l.lead.column ++
    l.value.places n (l.lead.column + l.key.length + 1)

/-- The words that are read as keys. -/
def IsKey (key : List Char) : Prop := 1 < key.length ∧ key.all Spot.isWordChar = true

instance (key : List Char) : Decidable (IsKey key) := inferInstanceAs (Decidable (_ ∧ _))

/-- The lines that are read as they are meant. -/
structure Fits (l : Line) : Prop where
  /-- The key is a word. -/
  key : IsKey l.key
  /-- The value fits. -/
  value : l.value.Fits

/-- A line whose value looks like the start of a key. -/
def Asks (l : Line) : Prop := IsKey l.key ∧ ∃ cs, l.value = .plain ('?' :: ' ' :: cs)

end Line

namespace Pause

variable {p : Pause} {key rest : List Char} {n margin : Nat} {ps : List (TokenKind × Mark)}
  {lead : Lead} {d : Char}

/-- A line up to the colon. -/
theorem AtLine.scans_key (h : p.AtLine (lead.chars ++ key ++ ':' :: d :: rest) n margin ps)
    (hmargin : margin ≠ 0 → lead.start ≤ margin) (hkey : Line.IsKey key)
    (hd : (isSpace d || isBreak d) = true) :
    ∃ q : Spot, Scanner.Scans p.scanner q.scanner ∧
      q.AtValue (d :: rest) n (lead.column + key.length + 1) lead.column
        (ps ++ (lead.places n ++ Spot.keyPlaces key n lead.column)) := by
  obtain ⟨hafter, hrest, rfl, rfl, hspaces⟩ := h
  obtain ⟨c, cs, rfl⟩ : ∃ c cs, key = c :: cs := by
    cases key with
    | nil => exact absurd hkey.1 (by simp)
    | cons c cs => exact ⟨c, cs, rfl⟩
  have hne : cs ≠ [] := by
    rintro rfl
    exact absurd hkey.1 (by simp)
  have hword := List.all_eq_true.1 hkey.2
  cases lead with
  | none =>
    obtain ⟨q, hscan, hq⟩ := exists_atValue hafter (by rwa [hspaces]) hword hne hrest hd
    rw [hspaces] at hq
    exact ⟨q, hscan, by simpa [Lead.column, Lead.places, Nat.add_assoc] using hq⟩
  | dash =>
    obtain ⟨q, hscan, hq⟩ := exists_atValue_of_dash hafter (by rwa [hspaces]) hword hne hrest hd
    rw [hspaces] at hq
    exact ⟨q, hscan, by simpa [Lead.column, Lead.places, Nat.add_assoc] using hq⟩
  | indent =>
    let second : Pause := p.afterSpace (' ' :: c :: cs ++ ':' :: d :: rest)
    have hfirst : Scanner.Scans p.scanner second.scanner := scans_space hafter.level hrest
    let third : Pause := second.afterSpace (c :: cs ++ ':' :: d :: rest)
    have hsecond : Scanner.Scans second.scanner third.scanner := scans_space hafter.level rfl
    have hspaces' : third.spaces = 2 := congrArg (· + 2) hspaces
    obtain ⟨q, hscan, hq⟩ := exists_atValue (p := third) ((hafter.space _).space _)
      (by rwa [hspaces']) hword hne rfl hd
    rw [hspaces', show third.line = p.line from rfl] at hq
    refine ⟨q, hfirst.trans (hsecond.trans hscan), ?_⟩
    simpa [Lead.column, Lead.places, Nat.add_assoc] using hq

end Pause

namespace Line

/-- The tokens of some lines. -/
def placesFrom (n : Nat) : List Line → List (TokenKind × Mark)
  | [] => []
  | l :: ls => l.places n ++ placesFrom (n + 1) ls

/-- No line goes on with the value of the line before it. -/
def Chained (margin : Nat) : List Line → Prop
  | [] => True
  | l :: ls => (margin ≠ 0 → l.lead.start ≤ margin) ∧ Chained l.lead.column ls

end Line

namespace Pause

variable {p : Pause} {l : Line} {ls more : List Line} {rest : List Char} {n margin : Nat}
  {ps : List (TokenKind × Mark)}

/-- A line is read to the next one. -/
theorem AtLine.scans_line (h : p.AtLine (l.chars ++ rest) n margin ps)
    (hmargin : margin ≠ 0 → l.lead.start ≤ margin) (hl : l.Fits) :
    ∃ q : Pause, Scanner.Scans p.scanner q.scanner ∧
      q.AtLine rest (n + 1) l.lead.column (ps ++ l.places n) := by
  obtain ⟨lead, key, value⟩ := l
  have hvalue := hl.value
  have hcolumn : lead.column ≠ 0 := by cases lead <;> simp [Lead.column]
  obtain ⟨d, ds, hds, hd⟩ : ∃ d ds, value.chars ++ '\n' :: rest = d :: ds ∧
      (isSpace d || isBreak d) = true := by
    cases value <;> exact ⟨_, _, rfl, rfl⟩
  have hrest : (Line.chars ⟨lead, key, value⟩) ++ rest = lead.chars ++ key ++ ':' :: d :: ds := by
    simp [Line.chars, ← hds]
  rw [hrest] at h
  obtain ⟨q, hscan, hq⟩ := h.scans_key hmargin hl.key hd
  rw [← hds] at hq
  obtain ⟨r, hscan', hr⟩ : ∃ r : Pause, Scanner.Scans q.scanner r.scanner ∧
      r.AtLine rest (n + 1) lead.column (ps ++ (lead.places n ++ Spot.keyPlaces key n lead.column) ++
        value.places n (lead.column + key.length + 1)) := by
    cases value with
    | nothing => simpa [Value.places] using hq.scans_nothing
    | plain cs => exact hq.scans_plain hvalue (Nat.succ_pos _) hcolumn
    | quoted cs => exact hq.scans_quoted hvalue
    | noItems => exact hq.scans_noItems
  rw [List.append_assoc] at hr
  exact ⟨r, hscan.trans hscan', hr⟩

/-- Lines are read one after another. -/
theorem AtLine.scans_lines (h : p.AtLine (ls.flatMap Line.chars ++ rest) n margin ps)
    (hls : ∀ l ∈ ls, l.Fits) (hchain : Line.Chained margin (ls ++ more)) :
    ∃ q : Pause, ∃ margin', Line.Chained margin' more ∧ Scanner.Scans p.scanner q.scanner ∧
      q.AtLine rest (n + ls.length) margin' (ps ++ Line.placesFrom n ls) := by
  induction ls generalizing p n margin ps with
  | nil => exact ⟨p, margin, hchain, .refl _, by simpa [Line.placesFrom] using h⟩
  | cons l ls ih =>
    obtain ⟨hl, hls⟩ := List.forall_mem_cons.1 hls
    rw [List.flatMap_cons, List.append_assoc] at h
    obtain ⟨q, hscan, hq⟩ := h.scans_line hchain.1 hl
    obtain ⟨r, margin', hmore, hscan', hr⟩ := ih hq hls hchain.2
    refine ⟨r, margin', hmore, hscan.trans hscan', ?_⟩
    rw [List.append_assoc, Nat.add_assoc, Nat.add_comm 1] at hr
    exact hr

/-- The pause at the start of a document. -/
def start (cs : List Char) : Pause where
  rest := cs
  before := none
  line := 1
  margin := 0
  spaces := 0
  level := .start
  pending := none
  source := []
  tokens := []

theorem atLine_start (cs : List Char) : (start cs).AtLine cs 1 0 [] :=
  ⟨⟨⟨rfl, by simp [start, allTokens]⟩, by simp [start], by simp [start], by simp [start]⟩, rfl, rfl,
    rfl, rfl⟩

theorem tokens?_eq (cs : List Char) :
    tokens? cs = (Scanner.run? (start cs).scanner.rest.length (start cs).scanner).map
      fun s => s.finish.tokens.reverse.filter (·.kind != .comment) := by
  rw [Option.map_eq_bind]
  rfl

/-- The end of a document ends a pending text. -/
theorem tokens_finish (h : p.After ps) : p.scanner.finish.tokens = p.allTokens := by
  rcases hp : p.pending with - | ⟨t, m⟩
  · simp [Scanner.finish, Scanner.flush, Scanner.takeText, Scanner.gathered, scanner, allTokens, hp]
  · have ht : t ≠ [] := (h.pending (t, m) hp).1
    simp [Scanner.finish, Scanner.flush, Scanner.takeText, Scanner.gathered, Scanner.textStyle,
      Scanner.textMark, Scanner.emit, Scanner.reset, scanner, allTokens, hp, ht]

end Pause

theorem Line.kind_ne_comment {ls : List Line} {n : Nat} :
    ∀ q ∈ placesFrom n ls, q.1 ≠ .comment := by
  induction ls generalizing n with
  | nil => simp [placesFrom]
  | cons l ls ih =>
    obtain ⟨lead, key, value⟩ := l
    rw [placesFrom, List.forall_mem_append]
    refine ⟨?_, ih⟩
    cases lead <;> cases value <;> simp [places, Lead.places, Value.places, Spot.keyPlaces]

/-- The tokens of a document that is made of lines. -/
theorem tokens?_lines {ls : List Line} (hls : ∀ l ∈ ls, l.Fits) (hchain : Line.Chained 0 ls) :
    ∃ ts, tokens? (ls.flatMap Line.chars) = some ts ∧ ts.map Token.place = Line.placesFrom 1 ls ∧
      ∀ t ∈ ts, OneLine t.source := by
  obtain ⟨q, margin, -, hscan, hq⟩ := (Pause.atLine_start (ls.flatMap Line.chars ++ [])).scans_lines
    hls (by rwa [List.append_nil] : Line.Chained 0 (ls ++ []))
  have hrun := hscan.run_eq_some hq.rest
  have htokens := Pause.tokens_finish hq.toAfter
  obtain ⟨heq, hone⟩ := hq.places
  rw [List.nil_append] at heq
  rw [List.append_nil] at hrun
  have hfilter : q.allTokens.reverse.filter (·.kind != .comment) = q.allTokens.reverse := by
    refine List.filter_eq_self.2 fun t ht => ?_
    have hmem : t.place ∈ Line.placesFrom 1 ls := heq ▸ List.mem_map_of_mem ht
    simpa [Token.place] using Line.kind_ne_comment _ hmem
  refine ⟨q.allTokens.reverse, ?_, heq, fun t ht => hone t (List.mem_reverse.1 ht)⟩
  rw [Pause.tokens?_eq, hrun, Option.map_some, htokens, hfilter]

/-- A line that asks for a key in place of its value is refused. -/
theorem tokens?_question {ls more : List Line} {lead : Lead} {key cs : List Char}
    (hls : ∀ l ∈ ls, l.Fits) (hkey : Line.IsKey key)
    (hchain : Line.Chained 0 (ls ++ ⟨lead, key, .plain ('?' :: ' ' :: cs)⟩ :: more)) :
    tokens? ((ls ++ ⟨lead, key, .plain ('?' :: ' ' :: cs)⟩ :: more).flatMap Line.chars) = none := by
  let rest := '?' :: ' ' :: cs ++ '\n' :: more.flatMap Line.chars
  have hchars : (ls ++ ⟨lead, key, .plain ('?' :: ' ' :: cs)⟩ :: more).flatMap Line.chars =
      ls.flatMap Line.chars ++ (lead.chars ++ key ++ ':' :: ' ' :: rest) := by
    simp [Line.chars, Value.chars, rest]
  rw [hchars]
  obtain ⟨q, margin, hmore, hscan, hq⟩ := (Pause.atLine_start
    (ls.flatMap Line.chars ++ (lead.chars ++ key ++ ':' :: ' ' :: rest))).scans_lines hls hchain
  obtain ⟨r, hscan', hr⟩ := hq.scans_key (d := ' ') hmore.1 hkey rfl
  have hstep : (r.afterBlank rest).scanner.step? '?' = none := by
    rw [Spot.step?_eq]
    simp [Scanner.char?, Scanner.hasText, Scanner.gathered, Spot.scanner, Spot.afterBlank, hr.text,
      rest, isSpace]
  have hrun := ((hscan.trans hscan').trans hr.scans_blank).run_eq_none rfl hstep
  rw [Pause.tokens?_eq, hrun, Option.map_none]

/-- A document of lines is refused if one of them does not fit as it asks for a key. -/
theorem tokens?_eq_none {ls : List Line} (hls : ∀ l ∈ ls, l.Fits ∨ l.Asks) (hchain : Line.Chained 0 ls)
    (hask : ¬ ∀ l ∈ ls, l.Fits) : tokens? (ls.flatMap Line.chars) = none := by
  classical
  -- the first line that does not fit comes after lines that are read
  obtain ⟨bad, hbad⟩ : ∃ bad, ls.find? (fun l => decide (¬ l.Fits)) = some bad := by
    rw [← Option.isSome_iff_exists, List.find?_isSome]
    simpa using hask
  obtain ⟨hnot, front, more, rfl, hfront⟩ := List.find?_eq_some_iff_append.1 hbad
  rcases hls bad (by simp) with hfits | hasks
  · exact absurd hfits (of_decide_eq_true hnot)
  · obtain ⟨lead, key, value⟩ := bad
    obtain ⟨hkey, cs, rfl⟩ := hasks
    exact tokens?_question (fun l hl => by simpa using hfront l hl) hkey hchain

end Yaml

end CallByValue
