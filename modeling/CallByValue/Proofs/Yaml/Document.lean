import CallByValue.Proofs.Yaml.Line
import CallByValue.Yaml.Document
import Mathlib.Data.List.Forall2
import Mathlib.Data.List.TakeWhile

/-!
# Documents of lines

The tokens of lines are grouped to keys with their values (`groups_lines`), and keys in one column make
a map (`MapReads`).  A document has some fields and then a list of records under a last key
(`documentLines`), the way a list of cases stands after the settings that they share.

**Main theorem** (`readAll?_document`): such a document is read as the map of its fields and the list of
its records, if its lines fit.  It is not read at all if one of them asks for a key
(`readAll?_document_eq_none`).
-/

namespace CallByValue

namespace Yaml

/-! ### Keys on one line -/

theorem OneLine.isBreak_eq_false {cs : List Char} (h : OneLine cs) :
    ∀ c ∈ ((cs.dropWhile isKeyBlank).reverse.dropWhile isKeyBlank).reverse, isBreak c = false := by
  obtain ⟨front, middle, back, rfl, hfront, hmiddle, hback⟩ := h
  intro c hc
  rw [List.append_assoc, List.dropWhile_append_of_pos (p := isKeyBlank) hfront, List.mem_reverse,
    List.dropWhile_append] at hc
  split at hc
  · rw [(List.dropWhile_eq_nil_iff (p := isKeyBlank)).2 hback] at hc
    simp at hc
  · rw [List.reverse_append, List.dropWhile_append_of_pos (p := isKeyBlank)
      fun d hd => hback d (List.mem_reverse.1 hd)] at hc
    refine hmiddle c ?_
    exact (List.dropWhile_sublist _).mem (List.mem_reverse.1 ((List.dropWhile_sublist _).mem hc))

/-- A key and its colon on line `n`, the key in the given column. -/
structure KeyAt (n column : Nat) (key : List Char) (k colon : Token) : Prop where
  /-- The key is a plain scalar. -/
  kind : k.kind = .scalar .plain (Text.ofChars key)
  /-- Its place. -/
  mark : k.mark = ⟨n, column⟩
  /-- The colon is on the same line. -/
  line : colon.mark.line = n
  /-- The key is on one line. -/
  oneLine : OneLine k.source

theorem KeyAt.isKeyLine {n column : Nat} {key : List Char} {k colon : Token}
    (h : KeyAt n column key k colon) : isKeyLine false k colon = true := by
  have hbreak : (((k.source.dropWhile isKeyBlank).reverse.dropWhile isKeyBlank).reverse.any isBreak) =
      false := by
    rw [List.any_eq_false]
    intro c hc
    simp [h.oneLine.isBreak_eq_false c hc]
  simp [Yaml.isKeyLine, hbreak, h.kind, h.mark, h.line]

/-! ### Items of lines -/

/-- What a scalar on a line stands for. -/
def Value.scalar : Value → Scalar
  | plain cs => .ofPlain (Text.ofChars cs)
  | quoted cs => .text (Text.ofChars cs)
  | _ => .null

/-- The item of a lead. -/
inductive Lead.Items (n : Nat) : Lead → List Item → Prop
  /-- Nothing. -/
  | none : Items n none []
  /-- A dash. -/
  | dash {d : Token} (hkind : d.kind = .dash) (hmark : d.mark = ⟨n, 1⟩) : Items n dash [.token d]
  /-- Nothing. -/
  | indent : Items n indent []

/-- The items of a key and a value. -/
inductive Value.Items (n column : Nat) (key : List Char) : Value → List Item → Prop
  /-- A key alone. -/
  | nothing {k c : Token} (hk : KeyAt n column key k c) : Items n column key nothing [.key k c]
  /-- A pair. -/
  | plain {k c v : Token} {cs : List Char} (hk : KeyAt n column key k c)
    (hv : v.scalar? = some (Value.plain cs).scalar) : Items n column key (plain cs) [.pair k c v]
  /-- A pair with a quoted text. -/
  | quoted {k c v : Token} {cs : List Char} (hk : KeyAt n column key k c)
    (hv : v.scalar? = some (Value.quoted cs).scalar) : Items n column key (quoted cs) [.pair k c v]
  /-- A key and two brackets. -/
  | noItems {k c s e : Token} (hk : KeyAt n column key k c) (hs : s.kind = .listStart)
    (hcolumn : column < s.mark.column) (he : e.kind = .listEnd) :
    Items n column key noItems [.key k c, .token s, .token e]

/-- The items of lines from line `n` on. -/
inductive Line.Items : Nat → List Line → List Item → Prop
  /-- Nothing. -/
  | nil {n : Nat} : Items n [] []
  /-- One line and the lines after it. -/
  | cons {n : Nat} {l : Line} {ls : List Line} {front back is : List Item}
    (hlead : l.lead.Items n front) (hvalue : l.value.Items n l.lead.column l.key back) (hls : Items (n + 1) ls is) :
    Items n (l :: ls) (front ++ back ++ is)

/-! ### Grouping -/

theorem groupKeys?_token {t : Token} {ts : List Token} (ht : t.kind ≠ .colon)
    (hts : ∀ c ∈ ts.head?, c.kind ≠ .colon) :
    groupKeys? (t :: ts) = (groupKeys? ts).map (.token t :: ·) := by
  cases ts with
  | nil => simp [groupKeys?, ht]
  | cons c ts =>
    have hc : c.kind ≠ .colon := hts c rfl
    simp [groupKeys?, ht, hc]

theorem ne_colon_of_isScalar {t : Token} (h : t.isScalar = true) : t.kind ≠ .colon := by
  intro hcolon
  simp [Token.isScalar, hcolon] at h

theorem groupKeys?_key {k c : Token} {ts : List Token} (hk : k.isScalar = true) (hc : c.kind = .colon) :
    groupKeys? (k :: c :: ts) = (groupKeys? ts).map (.key k c :: ·) := by
  simp [groupKeys?, ne_colon_of_isScalar hk, hc, hk]

theorem groupPairs_key {k c : Token} {is : List Item} (his : ∀ i ∈ is.head?, i.isScalar = false) :
    groupPairs (.key k c :: is) = .key k c :: groupPairs is := by
  cases is with
  | nil => simp [groupPairs]
  | cons i is =>
    cases i with
    | token t =>
      have ht : t.isScalar = false := his _ rfl
      simp [groupPairs, ht]
    | key _ _ => simp [groupPairs]
    | pair _ _ _ => simp [groupPairs]

/-- The grouping of tokens, with what the tokens before may rely on: the first item is no scalar of its
own. -/
def Groups (ts : List Token) (is : List Item) : Prop :=
  ∃ gs, groupKeys? ts = some gs ∧ groupPairs gs = is ∧ (∀ c ∈ ts.head?, c.kind ≠ .colon) ∧
    ∀ i ∈ gs.head?, i.isScalar = false

theorem groups_nil : Groups [] [] := ⟨[], rfl, rfl, by simp, by simp⟩

variable {n column : Nat} {key : List Char} {ts : List Token} {is : List Item}

namespace Groups

variable {k c t v : Token}

theorem cons_key (h : Groups ts is) (hk : k.isScalar = true) (hc : c.kind = .colon) :
    Groups (k :: c :: ts) (.key k c :: is) := by
  obtain ⟨gs, hgs, rfl, -, hscalar⟩ := h
  refine ⟨.key k c :: gs, ?_, groupPairs_key hscalar, ?_, by simp [Item.isScalar]⟩
  · rw [groupKeys?_key hk hc, hgs, Option.map_some]
  · simpa using ne_colon_of_isScalar hk

theorem cons_pair (h : Groups ts is) (hk : k.isScalar = true) (hc : c.kind = .colon)
    (hv : v.isScalar = true) (hline : k.mark.line = v.mark.line) : Groups (k :: c :: v :: ts) (.pair k c v :: is) := by
  obtain ⟨gs, hgs, rfl, hcolon, -⟩ := h
  refine ⟨.key k c :: .token v :: gs, ?_, ?_, ?_, by simp [Item.isScalar]⟩
  · rw [groupKeys?_key hk hc, groupKeys?_token (ne_colon_of_isScalar hv) hcolon, hgs, Option.map_some,
      Option.map_some]
  · simp [groupPairs, hv, hline]
  · simpa using ne_colon_of_isScalar hk

theorem cons_token (h : Groups ts is) (ht : t.isScalar = false) (hne : t.kind ≠ .colon) :
    Groups (t :: ts) (.token t :: is) := by
  obtain ⟨gs, hgs, rfl, hcolon, -⟩ := h
  refine ⟨.token t :: gs, ?_, ?_, by simpa using hne, by simpa [Item.isScalar] using ht⟩
  · rw [groupKeys?_token hne hcolon, hgs, Option.map_some]
  · simp [groupPairs]

end Groups

/-- A key and its value before grouped tokens. -/
theorem Groups.value {v : Value} {vs : List Token} (h : Groups ts is)
    (hvs : vs.map Token.place = Spot.keyPlaces key n column ++ v.places n (column + key.length + 1))
    (hone : ∀ t ∈ vs, OneLine t.source) :
    ∃ back, v.Items n column key back ∧ Groups (vs ++ ts) (back ++ is) := by
  obtain ⟨k, c, rest, rfl, hk, hc, hrest⟩ : ∃ k c rest, vs = k :: c :: rest ∧
      k.place = (.scalar .plain (Text.ofChars key), ⟨n, column⟩) ∧
      c.place = (.colon, ⟨n, column + key.length⟩) ∧
      rest.map Token.place = v.places n (column + key.length + 1) := by
    simpa [Spot.keyPlaces, List.map_eq_cons_iff, and_assoc] using hvs
  simp only [Token.place, Prod.mk.injEq] at hk hc
  have hkeyAt : KeyAt n column key k c := ⟨hk.1, hk.2, by rw [hc.2], hone k List.mem_cons_self⟩
  have hkscalar : k.isScalar = true := by simp [Token.isScalar, hk.1]
  cases v with
  | nothing =>
    obtain rfl : rest = [] := by simpa [Value.places] using hrest
    exact ⟨_, .nothing hkeyAt, h.cons_key hkscalar hc.1⟩
  | plain cs =>
    obtain ⟨v, rfl, hv⟩ : ∃ v, rest = [v] ∧
        v.place = (.scalar .plain (Text.ofChars cs), ⟨n, column + key.length + 1 + 1⟩) := by
      simpa [Value.places, List.map_eq_cons_iff] using hrest
    simp only [Token.place, Prod.mk.injEq] at hv
    refine ⟨_, .plain hkeyAt (v := v) ?_, h.cons_pair hkscalar hc.1 ?_ ?_⟩
    · simp [Token.scalar?, hv.1, Value.scalar]
    · simp [Token.isScalar, hv.1]
    · rw [hk.2, hv.2]
  | quoted cs =>
    obtain ⟨v, rfl, hv⟩ : ∃ v, rest = [v] ∧
        v.place = (.scalar .quoted (Text.ofChars cs), ⟨n, column + key.length + 1 + 1⟩) := by
      simpa [Value.places, List.map_eq_cons_iff] using hrest
    simp only [Token.place, Prod.mk.injEq] at hv
    refine ⟨_, .quoted hkeyAt (v := v) ?_, h.cons_pair hkscalar hc.1 ?_ ?_⟩
    · simp [Token.scalar?, hv.1, Value.scalar]
    · simp [Token.isScalar, hv.1]
    · rw [hk.2, hv.2]
  | noItems =>
    obtain ⟨s, e, rfl, hs, he⟩ : ∃ s e, rest = [s, e] ∧
        s.place = (.listStart, ⟨n, column + key.length + 1 + 1⟩) ∧
        e.place = (.listEnd, ⟨n, column + key.length + 1 + 2⟩) := by
      simpa [Value.places, List.map_eq_cons_iff, and_assoc] using hrest
    simp only [Token.place, Prod.mk.injEq] at hs he
    refine ⟨_, .noItems hkeyAt hs.1 ?_ he.1,
      ((h.cons_token ?_ ?_).cons_token ?_ ?_).cons_key hkscalar hc.1⟩
    · rw [hs.2]
      dsimp only
      omega
    · simp [Token.isScalar, he.1]
    · simp [he.1]
    · simp [Token.isScalar, hs.1]
    · simp [hs.1]

/-- The tokens of lines group to their items. -/
theorem groups_lines {ls : List Line} (hts : ts.map Token.place = Line.placesFrom n ls)
    (hone : ∀ t ∈ ts, OneLine t.source) : ∃ is, Line.Items n ls is ∧ Groups ts is := by
  induction ls generalizing n ts with
  | nil =>
    obtain rfl : ts = [] := by simpa [Line.placesFrom] using hts
    exact ⟨[], .nil, groups_nil⟩
  | cons l ls ih =>
    rw [Line.placesFrom, Line.places, List.append_assoc, List.append_assoc,
      List.map_eq_append_iff] at hts
    obtain ⟨us, ts, rfl, hus, hts⟩ := hts
    rw [← List.append_assoc, List.map_eq_append_iff] at hts
    obtain ⟨vs, ts, rfl, hvs, hts⟩ := hts
    rw [List.forall_mem_append, List.forall_mem_append] at hone
    obtain ⟨is, hitems, hgroups⟩ := ih hts hone.2.2
    obtain ⟨back, hback, hgroups⟩ := hgroups.value hvs hone.2.1
    obtain ⟨lead, key, value⟩ := l
    cases lead with
    | none =>
      obtain rfl : us = [] := by simpa [Lead.places] using hus
      exact ⟨_, .cons .none hback hitems, hgroups⟩
    | dash =>
      obtain ⟨d, rfl, hd⟩ : ∃ d, us = [d] ∧ d.place = (.dash, ⟨n, 1⟩) := by
        simpa [Lead.places, List.map_eq_cons_iff] using hus
      simp only [Token.place, Prod.mk.injEq] at hd
      exact ⟨_, .cons (.dash hd.1 hd.2) hback hitems,
        hgroups.cons_token (by simp [Token.isScalar, hd.1]) (by simp [hd.1])⟩
    | indent =>
      obtain rfl : us = [] := by simpa [Lead.places] using hus
      exact ⟨_, .cons .indent hback hitems, hgroups⟩

/-! ### Maps -/

/-- With enough fuel a block map with keys in the given column is read from the front of some items. -/
structure MapReads (column fuel : Nat) (items : List Item) (es : List Entry) (rest : List Item) :
    Prop where
  /-- The first item is a key in that column. -/
  head : ∃ i is, items = i :: is ∧ i.column = column ∧ i.isKey = true
  /-- The entries are read. -/
  reads : ∀ f ≥ fuel, blockMap? f false items = some (es, rest)
  /-- What is left belongs to something around the map. -/
  stop : ∀ i ∈ rest.head?, i.column < column

namespace MapReads

variable {fuel : Nat} {items rest : List Item} {es : List Entry} {k c v : Token} {sc : Scalar}

theorem moreEntries?_of_stop (hstop : ∀ i ∈ rest.head?, i.column < column) {f : Nat} (hf : 0 < f)
    (es : List Entry) : moreEntries? f false column es rest = some (es, rest) := by
  obtain ⟨f, rfl⟩ := Nat.exists_eq_add_one_of_ne_zero (Nat.ne_of_gt hf)
  cases rest with
  | nil => rfl
  | cons i rest =>
    have hne : i.column ≠ column := Nat.ne_of_lt (hstop i rfl)
    simp [moreEntries?, hne]

theorem fuel_pos (h : MapReads column fuel items es rest) : 0 < fuel := by
  refine Nat.pos_of_ne_zero fun h0 => ?_
  have hreads := h.reads 0 (by omega)
  simp [blockMap?] at hreads

/-- Entries that go on. -/
theorem moreEntries? (h : MapReads column fuel items es rest) {f : Nat} (hf : fuel < f)
    (fs : List Entry) : moreEntries? f false column fs items = some (fs ++ es, rest) := by
  obtain ⟨f, rfl⟩ := Nat.exists_eq_add_one_of_ne_zero (Nat.ne_of_gt (Nat.zero_lt_of_lt hf))
  have hreads := h.reads f (Nat.le_of_lt_succ hf)
  have hpos := h.fuel_pos
  obtain ⟨i, is, rfl, hcolumn, hkey⟩ := h.head
  have hkind : i.isKind .mapEnd = false := by cases i <;> simp_all [Item.isKey, Item.isKind]
  have hmore := moreEntries?_of_stop h.stop (f := f) (by omega) (fs ++ es)
  simp [Yaml.moreEntries?, hcolumn, hkind, hreads, hmore]

theorem of_pair (hk : KeyAt n column key k c) (hv : v.scalar? = some sc)
    (hstop : ∀ i ∈ rest.head?, i.column < column) :
    MapReads column 2 (.pair k c v :: rest) [⟨k, .scalar sc⟩] rest where
  head := ⟨_, _, rfl, by simp [Item.column, Item.first, hk.mark], rfl⟩
  stop := hstop
  reads := by
    intro f hf
    obtain ⟨f, rfl⟩ := Nat.exists_eq_add_one_of_ne_zero (n := f) (by omega)
    have hends : rest.head?.all (fun i => decide (i.column ≤ column)) = true := by
      cases rest with
      | nil => rfl
      | cons i rest => simpa using Nat.le_of_lt (hstop i rfl)
    have hmore := moreEntries?_of_stop hstop (f := f) (by omega) [⟨k, .scalar sc⟩]
    simp [blockMap?, hk.isKeyLine, hk.mark, hends, hv, hmore]

theorem pair (h : MapReads column fuel items es rest) (hk : KeyAt n column key k c)
    (hv : v.scalar? = some sc) :
    MapReads column (fuel + 2) (.pair k c v :: items) (⟨k, .scalar sc⟩ :: es) rest where
  head := ⟨_, _, rfl, by simp [Item.column, Item.first, hk.mark], rfl⟩
  stop := h.stop
  reads := by
    intro f hf
    obtain ⟨f, rfl⟩ := Nat.exists_eq_add_one_of_ne_zero (n := f) (by omega)
    have hmore := h.moreEntries? (f := f) (by omega) [⟨k, .scalar sc⟩]
    obtain ⟨i, is, rfl, hcolumn, -⟩ := h.head
    simp [blockMap?, hk.isKeyLine, hk.mark, hv, hmore, hcolumn]

/-- A key with its value on other lines, or with a list in brackets. -/
theorem of_key {node : Node} (hk : KeyAt n column key k c)
    (hdash : ∀ i ∈ items.head?, i.line = n → i.isKind .dash = false)
    (hvalue : ∀ f ≥ fuel, keyValue? f false k items = some (node, rest))
    (hstop : ∀ i ∈ rest.head?, i.column < column) :
    MapReads column (fuel + 2) (.key k c :: items) [⟨k, node⟩] rest where
  head := ⟨_, _, rfl, by simp [Item.column, Item.first, hk.mark], rfl⟩
  stop := hstop
  reads := by
    intro f hf
    obtain ⟨f, rfl⟩ := Nat.exists_eq_add_one_of_ne_zero (n := f) (by omega)
    have hsame : items.head?.any (fun i => decide (i.line = n) && i.isKind .dash) = false := by
      cases items with
      | nil => rfl
      | cons i items => simpa using hdash i rfl
    have hmore := moreEntries?_of_stop hstop (f := f) (by omega) [⟨k, node⟩]
    simp [blockMap?, hk.isKeyLine, hk.mark, hsame, hvalue f (by omega), hmore]

end MapReads

/-! ### Fields -/

/-- A key with a scalar. -/
structure Field where
  /-- The key. -/
  key : List Char
  /-- The value. -/
  value : Value

namespace Field

/-- The line of a field. -/
def line (lead : Lead) (f : Field) : Line := ⟨lead, f.key, f.value⟩

/-- The lines of an item with the given fields. -/
def itemLines : List Field → List Line
  | [] => []
  | f :: fs => f.line .dash :: fs.map (line .indent)

/-- What a field says. -/
def toPair (f : Field) : Scalar × Node := (.text (Text.ofChars f.key), .scalar f.value.scalar)

/-- The map of some fields. -/
def node (fs : List Field) : Node := .map (fs.map toPair)

/-- A field that is read as a key and a scalar. -/
structure Fits (f : Field) : Prop where
  /-- The key is a text. -/
  key : Scalar.ofPlain (Text.ofChars f.key) = .text (Text.ofChars f.key)
  /-- The value is a scalar. -/
  value : (∃ cs, f.value = .plain cs) ∨ ∃ cs, f.value = .quoted cs

/-- The item of a field with its key in the given column. -/
inductive IsPair (column : Nat) (f : Field) : Item → Prop
  /-- A pair. -/
  | intro {n : Nat} {k c v : Token} (hk : KeyAt n column f.key k c)
    (hv : v.scalar? = some f.value.scalar) : IsPair column f (.pair k c v)

/-- An entry that says what a field says. -/
structure IsEntry (f : Field) (e : Entry) : Prop where
  /-- The key. -/
  key : e.key.kind = .scalar .plain (Text.ofChars f.key)
  /-- The value. -/
  value : e.value = .scalar f.value.scalar

variable {f : Field} {fs : List Field} {items rest ps : List Item} {es : List Entry}

theorem isPair_of_items (hf : f.Fits) (h : f.value.Items n column f.key items) :
    ∃ i, items = [i] ∧ f.IsPair column i := by
  obtain ⟨key, value⟩ := f
  cases h with
  | nothing hk => simpa using hf.value
  | plain hk hv => exact ⟨_, rfl, hk, hv⟩
  | quoted hk hv => exact ⟨_, rfl, hk, hv⟩
  | noItems hk => simpa using hf.value

/-- Fields in one column are read as a map. -/
theorem mapReads (h : List.Forall₂ (IsPair column) fs ps) (hne : fs ≠ [])
    (hstop : ∀ i ∈ rest.head?, i.column < column) :
    ∃ es, MapReads column (2 * fs.length) (ps ++ rest) es rest ∧ List.Forall₂ IsEntry fs es := by
  induction h with
  | nil => exact absurd rfl hne
  | @cons f i fs ps hpair hpairs ih =>
    obtain ⟨hk, hv⟩ := hpair
    cases hpairs with
    | nil => exact ⟨_, .of_pair hk hv hstop, .cons ⟨hk.kind, rfl⟩ .nil⟩
    | cons hnext hpairs =>
      obtain ⟨es, hes, hentries⟩ := ih (by simp)
      exact ⟨_, hes.pair hk hv, .cons ⟨hk.kind, rfl⟩ hentries⟩

/-- Fields before other entries in the same column. -/
theorem mapReads_append {fuel : Nat} (h : List.Forall₂ (IsPair column) fs ps)
    (hitems : MapReads column fuel items es rest) :
    ∃ ds, MapReads column (2 * fs.length + fuel) (ps ++ items) (ds ++ es) rest ∧
      List.Forall₂ IsEntry fs ds := by
  induction h with
  | nil => exact ⟨[], by simpa using hitems, .nil⟩
  | @cons f i fs ps hpair hpairs ih =>
    obtain ⟨hk, hv⟩ := hpair
    obtain ⟨ds, hds, hentries⟩ := ih
    have hnext := hds.pair hk hv
    rw [show 2 * fs.length + fuel + 2 = 2 * (f :: fs).length + fuel by simp; omega] at hnext
    exact ⟨⟨_, .scalar f.value.scalar⟩ :: ds, hnext, .cons ⟨hk.kind, rfl⟩ hentries⟩

theorem IsEntry.toPair? {e : Entry} (h : f.IsEntry e) (hf : f.Fits) : e.toPair? = some f.toPair := by
  simp [Entry.toPair?, Token.scalar?, h.key, h.value, hf.key, Field.toPair]

theorem IsEntry.text {e : Entry} (h : f.IsEntry e) : e.key.text = Text.ofChars f.key := by
  simp [Token.text, h.key]

/-- The entries of fields as pairs. -/
theorem mapM_toPair? (h : List.Forall₂ IsEntry fs es) (hfs : ∀ f ∈ fs, f.Fits) :
    es.mapM Entry.toPair? = some (fs.map toPair) := by
  induction h with
  | nil => rfl
  | cons he _ ih =>
    obtain ⟨hf, hfs⟩ := List.forall_mem_cons.1 hfs
    simp [he.toPair? hf, ih hfs]

theorem map_text (h : List.Forall₂ IsEntry fs es) :
    es.map (·.key.text) = fs.map fun f => Text.ofChars f.key := by
  induction h with
  | nil => rfl
  | cons he _ ih => simp [he.text, ih]

/-- The map of fields with different keys. -/
theorem ofEntries?_eq (h : List.Forall₂ IsEntry fs es) (hfs : ∀ f ∈ fs, f.Fits)
    (hnodup : (fs.map fun f => Text.ofChars f.key).Nodup) : Node.ofEntries? es = some (node fs) := by
  rw [Node.ofEntries?, map_text h, if_pos hnodup, mapM_toPair? h hfs]
  rfl

end Field

/-! ### Lists of maps -/

/-- The items of a list of maps, each with its dash in the first column. -/
inductive ListItems : List (List Field) → List Item → Prop
  /-- Nothing. -/
  | nil : ListItems [] []
  /-- One map and the maps after it. -/
  | cons {d : Token} {fs : List Field} {css : List (List Field)} {ps is : List Item}
    (hkind : d.kind = .dash) (hcolumn : d.mark.column = 1) (hps : List.Forall₂ (Field.IsPair 3) fs ps)
    (hcss : ListItems css is) : ListItems (fs :: css) (.token d :: ps ++ is)

/-- A map that can be read: with fields that fit, and different keys. -/
structure IsRecord (fs : List Field) : Prop where
  /-- There is a field. -/
  ne_nil : fs ≠ []
  /-- The fields fit. -/
  fits : ∀ f ∈ fs, f.Fits
  /-- Their keys are different. -/
  nodup : (fs.map fun f => Text.ofChars f.key).Nodup

theorem ListItems.head {css : List (List Field)} (h : ListItems css is) :
    ∀ i ∈ is.head?, i.column < 3 := by
  cases h with
  | nil => simp
  | cons hkind hcolumn => simp [Item.column, Item.first, hcolumn]

/-- A map is read as a value. -/
theorem value?_of_mapReads {fuel : Nat} {es : List Entry} {items rest : List Item} {node : Node}
    (h : MapReads column fuel items es rest) (hnode : Node.ofEntries? es = some node) {f : Nat}
    (hf : fuel < f) :
    value? f false items = some (node, rest) := by
  obtain ⟨f, rfl⟩ := Nat.exists_eq_add_one_of_ne_zero (Nat.ne_of_gt (Nat.zero_lt_of_lt hf))
  have hreads := h.reads f (Nat.le_of_lt_succ hf)
  obtain ⟨i, is, rfl, -, hkey⟩ := h.head
  cases i with
  | token t => simp [Item.isKey] at hkey
  | key k c => simp [value?, hreads, hnode]
  | pair k c v => simp [value?, hreads, hnode]

theorem ListItems.blockList? {css : List (List Field)} (h : ListItems css is)
    (hcss : ∀ fs ∈ css, IsRecord fs) {f : Nat} (hf : 2 * is.length + 2 ≤ f) :
    blockList? f false 1 is = some (css.map Field.node, []) := by
  induction h generalizing f with
  | nil =>
    obtain ⟨f, rfl⟩ := Nat.exists_eq_add_one_of_ne_zero (n := f) (by omega)
    rfl
  | @cons d fs css ps is hkind hcolumn hps hlist ih =>
    obtain ⟨hfs, hcss⟩ := List.forall_mem_cons.1 hcss
    obtain ⟨es, hes, hentries⟩ := Field.mapReads hps hfs.ne_nil hlist.head
    have hnode := Field.ofEntries?_eq hentries hfs.fits hfs.nodup
    have hlen := hps.length_eq
    simp only [List.length_cons, List.length_append, List.cons_append] at hf
    obtain ⟨f, rfl⟩ := Nat.exists_eq_add_one_of_ne_zero (n := f) (by omega)
    have hitem : itemValue? f false 1 (ps ++ is) = some (Field.node fs, is) := by
      obtain ⟨f, rfl⟩ := Nat.exists_eq_add_one_of_ne_zero (n := f) (by omega)
      cases hps with
      | nil => exact absurd rfl hfs.ne_nil
      | cons hpair =>
        obtain ⟨hk, hv⟩ := hpair
        have hvalue := value?_of_mapReads hes hnode (f := f) (by omega)
        rw [List.cons_append] at hvalue ⊢
        simp [itemValue?, Item.column, Item.first, hk.mark, hvalue]
    simp [Yaml.blockList?, Item.isKind, hkind, Item.column, Item.first, hcolumn, hitem,
      ih hcss (f := f) (by omega)]

/-! ### Documents -/

/-- The lines of fields with nothing before them and of a list of maps under a key. -/
def documentLines (fs : List Field) (key : List Char) (css : List (List Field)) : List Line :=
  fs.map (Field.line .none) ++
    if css = [] then [⟨.none, key, .noItems⟩] else ⟨.none, key, .nothing⟩ :: css.flatMap Field.itemLines

theorem Field.mem_itemLines {fs : List Field} {l : Line} (h : l ∈ Field.itemLines fs) :
    ∃ f ∈ fs, ∃ lead, l = f.line lead := by
  cases fs with
  | nil => simp [Field.itemLines] at h
  | cons f fs =>
    rcases List.mem_cons.1 h with rfl | h
    · exact ⟨f, List.mem_cons_self, .dash, rfl⟩
    · obtain ⟨g, hg, rfl⟩ := List.mem_map.1 h
      exact ⟨g, List.mem_cons_of_mem f hg, .indent, rfl⟩

theorem Field.exists_mem_itemLines {fs : List Field} {f : Field} (h : f ∈ fs) :
    ∃ lead, f.line lead ∈ Field.itemLines fs := by
  cases fs with
  | nil => simp at h
  | cons g fs =>
    rcases List.mem_cons.1 h with rfl | h
    · exact ⟨.dash, List.mem_cons_self⟩
    · exact ⟨.indent, List.mem_cons_of_mem _ (List.mem_map_of_mem h)⟩

/-- What holds of every line of a document. -/
theorem forall_mem_documentLines {P : Line → Prop} {fs : List Field} {key : List Char}
    {css : List (List Field)} (hfs : ∀ f ∈ fs, P (f.line .none)) (hempty : P ⟨.none, key, .noItems⟩)
    (hkey : P ⟨.none, key, .nothing⟩) (hcss : ∀ gs ∈ css, ∀ g ∈ gs, ∀ lead, P (g.line lead)) :
    ∀ l ∈ documentLines fs key css, P l := by
  intro l hl
  rcases List.mem_append.1 hl with hl | hl
  · obtain ⟨f, hf, rfl⟩ := List.mem_map.1 hl
    exact hfs f hf
  · split at hl
    · obtain rfl := List.mem_singleton.1 hl
      exact hempty
    · rcases List.mem_cons.1 hl with rfl | hl
      · exact hkey
      · obtain ⟨gs, hgs, hl⟩ := List.mem_flatMap.1 hl
        obtain ⟨g, hg, lead, rfl⟩ := Field.mem_itemLines hl
        exact hcss gs hgs g hg lead

theorem chained_fields {ls : List Line} {lead : Lead} {margin : Nat} (hlead : lead.start ≤ lead.column)
    (hmargin : margin ≠ 0 → lead.start ≤ margin) (hls : ∀ margin, Line.Chained margin ls)
    (fs : List Field) :
    Line.Chained margin (fs.map (Field.line lead) ++ ls) := by
  induction fs generalizing margin with
  | nil => exact hls margin
  | cons f fs ih => exact ⟨hmargin, ih fun _ => hlead⟩

theorem chained_items (css : List (List Field)) (margin : Nat) :
    Line.Chained margin (css.flatMap Field.itemLines) := by
  induction css generalizing margin with
  | nil => trivial
  | cons fs css ih =>
    cases fs with
    | nil => exact ih margin
    | cons f fs => exact ⟨Nat.pos_of_ne_zero, chained_fields (by decide) (fun _ => Nat.le_refl 3) ih fs⟩

/-- No line of a document goes on with the line before it. -/
theorem chained_documentLines (fs : List Field) (key : List Char) (css : List (List Field)) :
    Line.Chained 0 (documentLines fs key css) := by
  refine chained_fields (by decide) (fun h => absurd rfl h) (fun margin => ?_) fs
  split
  · exact ⟨Nat.pos_of_ne_zero, trivial⟩
  · exact ⟨Nat.pos_of_ne_zero, chained_items css 1⟩

theorem Value.Items.line_head {v : Value} {back : List Item} (h : v.Items n column key back) :
    ∃ i rest, back = i :: rest ∧ i.line = n := by
  cases h with
  | nothing hk => exact ⟨_, _, rfl, congrArg Mark.line hk.mark⟩
  | plain hk _ => exact ⟨_, _, rfl, congrArg Mark.line hk.mark⟩
  | quoted hk _ => exact ⟨_, _, rfl, congrArg Mark.line hk.mark⟩
  | noItems hk => exact ⟨_, _, rfl, congrArg Mark.line hk.mark⟩

namespace Line.Items

/-- The items of lines start on the first of them. -/
theorem line_head {ls : List Line} (h : Line.Items n ls is) : ∀ i ∈ is.head?, i.line = n := by
  rcases h with - | ⟨hlead, hvalue, -⟩
  · simp
  · obtain ⟨i, rest, rfl, hi⟩ := hvalue.line_head
    generalize Line.lead _ = lead at hlead
    cases hlead with
    | dash _ hmark => simp [Item.line, Item.first, hmark]
    | none => simpa using hi
    | indent => simpa using hi

/-- A line without a dash. -/
theorem cons_inv {lead : Lead} {f : Field} {ls : List Line} (hlead : lead ≠ .dash) (hf : f.Fits)
    (h : Line.Items n (f.line lead :: ls) is) :
    ∃ i rest, is = i :: rest ∧ f.IsPair lead.column i ∧ Line.Items (n + 1) ls rest := by
  cases h with
  | cons hl hvalue hls =>
    obtain ⟨i, rfl, hi⟩ := Field.isPair_of_items hf hvalue
    cases lead with
    | dash => exact absurd rfl hlead
    | none =>
      cases hl
      exact ⟨i, _, rfl, hi, hls⟩
    | indent =>
      cases hl
      exact ⟨i, _, rfl, hi, hls⟩

theorem fields {lead : Lead} {fs : List Field} {ls : List Line} (hlead : lead ≠ .dash)
    (hfs : ∀ f ∈ fs, f.Fits) (h : Line.Items n (fs.map (Field.line lead) ++ ls) is) :
    ∃ ps rest, is = ps ++ rest ∧ List.Forall₂ (Field.IsPair lead.column) fs ps ∧
      Line.Items (n + fs.length) ls rest := by
  induction fs generalizing n is with
  | nil => exact ⟨[], is, rfl, .nil, h⟩
  | cons f fs ih =>
    obtain ⟨hf, hfs⟩ := List.forall_mem_cons.1 hfs
    obtain ⟨i, rest, rfl, hi, hrest⟩ := cons_inv hlead hf h
    obtain ⟨ps, rest, rfl, hps, hls⟩ := ih hfs hrest
    rw [Nat.add_assoc, Nat.add_comm 1] at hls
    exact ⟨i :: ps, rest, rfl, .cons hi hps, hls⟩

theorem listItems {css : List (List Field)} (hcss : ∀ fs ∈ css, IsRecord fs)
    (h : Line.Items n (css.flatMap Field.itemLines) is) : ListItems css is := by
  induction css generalizing n is with
  | nil =>
    cases h
    exact .nil
  | cons fs css ih =>
    obtain ⟨hfs, hothers⟩ := List.forall_mem_cons.1 hcss
    cases fs with
    | nil => exact absurd rfl hfs.ne_nil
    | cons f fs =>
      obtain ⟨hf, hfits⟩ := List.forall_mem_cons.1 hfs.fits
      rw [List.flatMap_cons, Field.itemLines, List.cons_append] at h
      cases h with
      | cons hl hvalue hls =>
        obtain ⟨i, rfl, hi⟩ := Field.isPair_of_items hf hvalue
        cases hl with
        | dash hkind hmark =>
          obtain ⟨ps, rest, rfl, hps, hrest⟩ := fields (by simp) hfits hls
          have hpairs : List.Forall₂ (Field.IsPair 3) (f :: fs) (i :: ps) := .cons hi hps
          exact (ListItems.cons hkind (congrArg Mark.column hmark) hpairs (ih hothers hrest) :)

end Line.Items

/-- The list in brackets after a key. -/
theorem keyValue?_noItems {k c s e : Token} (hk : KeyAt n column key k c) (hs : s.kind = .listStart)
    (hcolumn : column < s.mark.column) (he : e.kind = .listEnd) {f : Nat} (hf : 3 ≤ f) :
    keyValue? f false k [.token s, .token e] = some (.list [], []) := by
  obtain ⟨f, rfl⟩ := Nat.exists_eq_add_of_le' hf
  have hle : ¬ s.mark.column < column := by omega
  have hne : s.mark.column ≠ column := by omega
  simp [keyValue?, value?, flowList?, Item.isKey, Item.isKind, Item.column, Item.first, hk.mark, hs, he,
    hle, hne]

/-- The list of maps after a key. -/
theorem keyValue?_listItems {css : List (List Field)} {k c : Token} (hk : KeyAt n 1 key k c)
    (h : ListItems css is) (hne : css ≠ []) (hcss : ∀ fs ∈ css, IsRecord fs) {f : Nat}
    (hf : 2 * is.length + 4 ≤ f) :
    keyValue? f false k is = some (.list (css.map Field.node), []) := by
  obtain ⟨f, rfl⟩ := Nat.exists_eq_add_of_le' (Nat.le_trans (Nat.le_add_left 2 _) hf)
  have hlist := h.blockList? hcss (f := f) (by omega)
  cases h with
  | nil => exact absurd rfl hne
  | cons hkind hcolumn =>
    rw [List.cons_append] at hlist ⊢
    simp [keyValue?, value?, Item.isKey, Item.isKind, Item.isMapPart, Item.column, Item.first, hk.mark,
      hkind, hcolumn, hlist]

/-- A document of fields and a list of maps under a key. -/
theorem ofItems?_document {fs : List Field} {css : List (List Field)} (hfs : ∀ f ∈ fs, f.Fits)
    (hkey : Scalar.ofPlain (Text.ofChars key) = .text (Text.ofChars key))
    (hnodup : ((fs.map fun f => Text.ofChars f.key) ++ [Text.ofChars key]).Nodup)
    (hcss : ∀ cs ∈ css, IsRecord cs) (h : Line.Items 1 (documentLines fs key css) is) :
    Node.ofItems? is = some (.map
      (fs.map Field.toPair ++ [(.text (Text.ofChars key), .list (css.map Field.node))])) := by
  obtain ⟨ps, rest, rfl, hps, hrest⟩ := Line.Items.fields (by simp) hfs h
  obtain ⟨k, fuel, hkind, hfuel, hmap⟩ : ∃ k fuel, k.kind = .scalar .plain (Text.ofChars key) ∧
      fuel ≤ 2 * rest.length + 5 ∧
      MapReads 1 fuel rest [⟨k, .list (css.map Field.node)⟩] [] := by
    -- the value of the last key stands in brackets behind it, or on the lines below
    split at hrest
    · next hnil =>
      subst hnil
      rcases hrest with - | ⟨⟨⟩, hvalue, ⟨⟩⟩
      cases hvalue with
      | noItems hk hs hcolumn he =>
        have hread := fun f (hf : 3 ≤ f) => keyValue?_noItems hk hs hcolumn he hf
        refine ⟨_, 5, hk.kind, by simp, .of_key hk ?_ hread ?_⟩
        · simp [Item.isKind, hs]
        · simp
    · next hne =>
      rcases hrest with - | ⟨⟨⟩, hvalue, hlist⟩
      cases hvalue with
      | nothing hk =>
        have hlines := hlist.line_head
        have hitems := hlist.listItems hcss
        have hread := fun f hf => keyValue?_listItems hk hitems hne hcss (f := f) hf
        refine ⟨_, _, hk.kind, ?_, .of_key hk ?_ hread ?_⟩
        · rw [List.nil_append, List.singleton_append, List.length_cons]
          omega
        · intro i hi hline
          rw [hlines i hi] at hline
          omega
        · simp
  obtain ⟨ds, hreads, hentries⟩ := Field.mapReads_append hps hmap
  have hnode : Node.ofEntries? (ds ++ [⟨k, .list (css.map Field.node)⟩]) = some (.map
      (fs.map Field.toPair ++ [(.text (Text.ofChars key), .list (css.map Field.node))])) := by
    have htexts : (ds ++ [(⟨k, .list (css.map Field.node)⟩ : Entry)]).map (·.key.text) =
        (fs.map fun f => Text.ofChars f.key) ++ [Text.ofChars key] := by
      rw [List.map_append, Field.map_text hentries]
      simp [Token.text, hkind]
    rw [Node.ofEntries?, htexts, if_pos hnodup]
    simp [List.mapM_append, Field.mapM_toPair? hentries hfs, Entry.toPair?, Token.scalar?, hkind, hkey]
  have hlen := hps.length_eq
  have hvalue := value?_of_mapReads hreads hnode (f := 8 * (ps ++ rest).length + 8)
    (by rw [List.length_append]; omega)
  rw [Node.ofItems?, hvalue]

theorem Line.Items.isBoundary_eq_false {ls : List Line} (h : Line.Items n ls is) :
    ∀ i ∈ is, i.isBoundary = false := by
  induction h with
  | nil => simp
  | cons hlead hvalue _ ih =>
    rw [List.forall_mem_append, List.forall_mem_append]
    refine ⟨⟨?_, ?_⟩, ih⟩
    · generalize Line.lead _ = lead at hlead
      cases hlead with
      | dash hkind _ => simp [Item.isBoundary, Item.isKind, hkind]
      | none => simp
      | indent => simp
    · generalize Line.value _ = value at hvalue
      cases hvalue with
      | noItems _ hs _ he => simp [Item.isBoundary, Item.isKind, hs, he]
      | nothing _ => simp [Item.isBoundary, Item.isKind]
      | plain _ _ => simp [Item.isBoundary, Item.isKind]
      | quoted _ _ => simp [Item.isBoundary, Item.isKind]

/-- Without lines that divide documents there is one document. -/
theorem documents?_of_not_isBoundary (h : ∀ i ∈ is, i.isBoundary = false) (fuel : Nat) :
    documents? (fuel + 1) is = some [is] := by
  have hall : ∀ i ∈ is, (!i.isBoundary) = true := fun i hi => by rw [h i hi]; rfl
  rw [documents?, List.takeWhile_eq_self_iff.2 hall, List.dropWhile_eq_nil_iff.2 hall]

/-- **A document of fields and a list of maps is read as what it says.** -/
theorem readAll?_document {fs : List Field} {css : List (List Field)} (hfs : ∀ f ∈ fs, f.Fits)
    (hkey : Scalar.ofPlain (Text.ofChars key) = .text (Text.ofChars key))
    (hnodup : ((fs.map fun f => Text.ofChars f.key) ++ [Text.ofChars key]).Nodup)
    (hcss : ∀ cs ∈ css, IsRecord cs) (hlines : ∀ l ∈ documentLines fs key css, l.Fits) :
    Node.readAll? (Text.ofChars ((documentLines fs key css).flatMap Line.chars)) = some [.map
      (fs.map Field.toPair ++ [(.text (Text.ofChars key), .list (css.map Field.node))])] := by
  obtain ⟨ts, htokens, hplaces, hone⟩ := tokens?_lines hlines (chained_documentLines fs key css)
  obtain ⟨is, hitems, gs, hgs, rfl, -, -⟩ := groups_lines hplaces hone
  have hdocuments := documents?_of_not_isBoundary hitems.isBoundary_eq_false (groupPairs gs).length
  have hnode := ofItems?_document hfs hkey hnodup hcss hitems
  have hne : groupPairs gs ≠ [] := by
    intro hnil
    rw [hnil] at hnode
    simp [Node.ofItems?, value?] at hnode
  simp [Node.readAll?, Text.chars_ofChars, htokens, hgs, hdocuments, hne, hnode]

/-- It is not read at all if one of its lines asks for a key. -/
theorem readAll?_document_eq_none {fs : List Field} {css : List (List Field)}
    (hlines : ∀ l ∈ documentLines fs key css, l.Fits ∨ l.Asks)
    (hask : ¬ ∀ l ∈ documentLines fs key css, l.Fits) :
    Node.readAll? (Text.ofChars ((documentLines fs key css).flatMap Line.chars)) = none := by
  rw [Node.readAll?, Text.chars_ofChars, tokens?_eq_none hlines (chained_documentLines fs key css) hask]
  rfl

end Yaml

end CallByValue
