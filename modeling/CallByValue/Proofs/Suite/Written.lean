import CallByValue.Proofs.Yaml.Document
import CallByValue.Proofs.Yaml.Scalar
import CallByValue.Suite.Writer

/-!
# Suites as lines

A suite of printable texts is written as a document of lines (`Suite.write_eq`): a record per case, with
a line for each field that is not left out.  The lines fit exactly if the texts do, each as a value of
its own (`Suite.fits_iff`).
-/

namespace CallByValue

namespace Text

/-- A text without stray bytes all of whose characters are printable. -/
def IsPrintable (t : Text) : Prop := t.repaired = t ∧ t.chars.all isPrintable = true

instance (t : Text) : Decidable t.IsPrintable := inferInstanceAs (Decidable (_ ∧ _))

theorem IsPrintable.exists_chars {t : Text} (h : t.IsPrintable) :
    ∃ cs, t = ofChars cs ∧ ∀ c ∈ cs, isPrintable c = true :=
  ⟨t.chars, h.1.symm, List.all_eq_true.1 h.2⟩

end Text

namespace Yaml

/-! ### Joining and cutting lines -/

theorem utf8_newline : utf8 "\n" = [0x0a] := rfl

theorem join_cons (sep l m : Text) (ls : List Text) :
    Text.join sep (l :: m :: ls) = l ++ sep ++ Text.join sep (m :: ls) := rfl

theorem join_append (sep l : Text) (ls : List Text) :
    Text.join sep (l :: ls) ++ sep = (l :: ls).flatMap (· ++ sep) := by
  induction ls generalizing l with
  | nil => simp [Text.join]
  | cons m ls ih =>
    rw [join_cons, List.append_assoc, ih, List.flatMap_cons (x := l)]

/-- Up to a newline nothing is cut. -/
theorem cut_append {l t cur : Text} {fuel : Nat} (hl : 0x0a ∉ l) (hfuel : l.length ≤ fuel) :
    cut (utf8 "\n") fuel cur (l ++ t) = cut (utf8 "\n") (fuel - l.length) (l.reverse ++ cur) t := by
  induction l generalizing fuel cur with
  | nil => rfl
  | cons b l ih =>
    obtain ⟨hb, hl⟩ := not_or.1 (mt List.mem_cons.2 hl)
    obtain ⟨fuel, rfl⟩ := Nat.exists_eq_add_of_le' (Nat.le_trans (by simp) hfuel : 1 ≤ fuel)
    have hcut : (utf8 "\n").isPrefixOf (b :: (l ++ t)) = false := by
      simpa [utf8_newline, List.isPrefixOf] using hb
    rw [List.length_cons, Nat.add_le_add_iff_right] at hfuel
    rw [List.cons_append, cut, hcut, if_neg (by simp), ih hl hfuel]
    simp

/-- Cutting at newlines undoes joining lines. -/
theorem cut_join {ls : List Text} {fuel : Nat} (hne : ls ≠ []) (hls : ∀ l ∈ ls, 0x0a ∉ l)
    (hfuel : (Text.join (utf8 "\n") ls).length ≤ fuel) :
    cut (utf8 "\n") fuel [] (Text.join (utf8 "\n") ls) = ls := by
  induction ls generalizing fuel with
  | nil => exact absurd rfl hne
  | cons l ls ih =>
    obtain ⟨hl, hls⟩ := List.forall_mem_cons.1 hls
    cases ls with
    | nil =>
      have hcut : cut (utf8 "\n") fuel [] (l ++ []) =
          cut (utf8 "\n") (fuel - l.length) (l.reverse ++ []) [] := cut_append hl hfuel
      rw [List.append_nil, List.append_nil] at hcut
      rw [Text.join, hcut]
      cases fuel - l.length <;> simp [cut]
    | cons m ls =>
      rw [join_cons, List.append_assoc] at hfuel ⊢
      rw [List.length_append, List.length_append] at hfuel
      have hlength : (utf8 "\n").length = 1 := rfl
      obtain ⟨rest, hrest⟩ := Nat.exists_eq_add_one_of_ne_zero (n := fuel - l.length) (by omega)
      rw [cut_append hl (by omega), hrest, utf8_newline, List.singleton_append, cut]
      have hbound : (Text.join (utf8 "\n") (m :: ls)).length ≤ rest := by omega
      simpa [List.isPrefixOf, utf8_newline] using ih (by simp) hls hbound

/-- Lines after the first are indented, apart from empty ones. -/
theorem indentRest_join {l : Text} {ls : List Text} (hls : ∀ m ∈ l :: ls, 0x0a ∉ m)
    (hne : ∀ m ∈ ls, m ≠ []) :
    indentRest (Text.join (utf8 "\n") (l :: ls)) =
      Text.join (utf8 "\n") (l :: ls.map (blockIndent ++ ·)) := by
  have hindent : ls.map (fun m => if m.isEmpty then m else blockIndent ++ m) =
      ls.map (blockIndent ++ ·) :=
    List.map_congr_left fun m hm => if_neg (by simpa using hne m hm)
  rw [indentRest, cut_join (by simp) hls (Nat.le_refl _)]
  dsimp only
  rw [hindent]

/-! ### Values -/

namespace Value

/-- A text as a value. -/
def ofText (t : Text) : Value := if needsQuotes t then .quoted t.chars else .plain t.chars

/-- A number as a value. -/
def ofCount (n : Nat) : Value := .plain (Nat.toDigits 10 n)

theorem ofText_nil : ofText [] = .quoted [] := by
  have hchars : Text.chars [] = [] := Text.chars_ofChars []
  rw [ofText, hchars]
  rfl

end Value

/-- A field without its indentation. -/
def Field.text (f : Field) : Text := Text.ofChars (f.key ++ ':' :: f.value.chars)

/-- A key with the value after it, unless it is left out. -/
def Field.ofValue? (kv : String × Option Value) : Option Field := kv.2.map (⟨kv.1.toList, ·⟩)

variable {t : Text}

theorem writeScalar_eq (ht : t.IsPrintable) :
    utf8 " " ++ writeScalar t = Text.ofChars (Value.ofText t).chars := by
  obtain ⟨cs, rfl, hcs⟩ := ht.exists_chars
  rw [writeScalar, Value.ofText]
  split
  · rw [Text.quoted_ofChars hcs, Text.chars_ofChars]
    rfl
  · have hbreak : ∀ b : UInt8, b < 0x80 → isPrintable (Char.ofUInt8 b) = false →
        b ∉ Text.ofChars cs := by
      intro b hb hnot hmem
      rw [hcs _ (Text.ofUInt8_mem_of_mem_ofChars hb hmem)] at hnot
      simp at hnot
    have hnewline := hbreak 0x0a (by decide) (by decide)
    have hreturn := hbreak 0x0d (by decide) (by decide)
    rw [if_neg (by simp [hnewline, hreturn]), Text.chars_ofChars]
    rfl

/-- The keys of suites and their cases. -/
def suiteKeys : List String := ["name", "input", "output", "outcome", "steps", "max_steps", "cases"]

theorem isKey_of_mem_suiteKeys {key : String} (h : key ∈ suiteKeys) : Line.IsKey key.toList := by
  revert key
  decide

theorem ofPlain_of_mem_suiteKeys {key : String} (h : key ∈ suiteKeys) :
    Scalar.ofPlain (utf8 key) = .text (utf8 key) := by
  have hkeys : ∀ key ∈ suiteKeys, needsQuotes (utf8 key) = false ∧ utf8 key ∉ floatWords := by decide
  exact Scalar.ofPlain_of_needsQuotes (hkeys key h).1 (hkeys key h).2

/-- The values that are written where all texts are of a kind. -/
inductive Value.IsWritten (P : Text → Prop) : Value → Prop
  /-- A text. -/
  | text {t : Text} (ht : P t) : IsWritten P (ofText t)
  /-- A number. -/
  | count (n : Nat) : IsWritten P (ofCount n)

namespace Value.IsWritten

variable {P : Text → Prop} {v : Value}

theorem newline_notMem (h : v.IsWritten Text.IsPrintable) : '\n' ∉ v.chars := by
  cases h with
  | text ht =>
    obtain ⟨cs, rfl, hcs⟩ := ht.exists_chars
    have hnot : '\n' ∉ cs := fun hmem => (ne_of_isPrintable (hcs _ hmem)).1 rfl
    rw [ofText, Text.chars_ofChars]
    split
    · have hescaped : '\n' ∉ cs.flatMap Text.escaped := by
        intro hmem
        obtain ⟨c, hc, hchar⟩ := List.mem_flatMap.1 hmem
        rcases Text.mem_escaped hchar with h | rfl
        · simp at h
        · exact hnot hc
      simp [chars, List.mem_append, hescaped]
    · simpa [chars] using hnot
  | count n =>
    intro hmem
    have hdigit := Nat.isDigit_of_mem_toDigits (by omega) (by omega)
      (by simpa [ofCount, chars] using hmem : '\n' ∈ Nat.toDigits 10 n)
    simp at hdigit

/-- A written value fits, unless it is a text that looks like the start of a key. -/
theorem fits_or_asks (h : v.IsWritten Text.IsPrintable) :
    v.Fits ∨ ∃ cs, v = .plain ('?' :: ' ' :: cs) := by
  cases h with
  | text ht =>
    obtain ⟨cs, rfl, hcs⟩ := ht.exists_chars
    rw [ofText, Text.chars_ofChars]
    split
    · exact .inl fun c hc => isBreak_of_isPrintable (hcs c hc)
    · next hquotes =>
      by_cases hquestion : ['?', ' '] <+: cs
      · obtain ⟨ds, rfl⟩ := hquestion
        exact .inr ⟨ds, rfl⟩
      · exact .inl (plain_of_needsQuotes hcs (by simpa using hquotes) hquestion)
  | count n => exact .inl (plain_toDigits n)

theorem fits (h : v.IsWritten P) (hP : ∀ t, P t → (ofText t).Fits) : v.Fits := by
  cases h with
  | text ht => exact hP _ ht
  | count n => exact plain_toDigits n

theorem isScalar (h : v.IsWritten P) : (∃ cs, v = .plain cs) ∨ ∃ cs, v = .quoted cs := by
  cases h with
  | text _ =>
    rw [ofText]
    split
    · exact .inr ⟨_, rfl⟩
    · exact .inl ⟨_, rfl⟩
  | count n => exact .inl ⟨_, rfl⟩

end Value.IsWritten

/-- The fields that are written where all texts are of a kind. -/
inductive Field.IsWritten (P : Text → Prop) : Field → Prop
  /-- One of the keys with a value. -/
  | intro {key : String} {v : Value} (hkey : key ∈ suiteKeys) (hv : v.IsWritten P) :
    IsWritten P ⟨key.toList, v⟩

namespace Field.IsWritten

variable {P Q : Text → Prop} {f : Field}

theorem mono (h : f.IsWritten P) (hPQ : ∀ t, P t → Q t) : f.IsWritten Q := by
  obtain ⟨hkey, hv⟩ := h
  cases hv with
  | text ht => exact ⟨hkey, .text (hPQ _ ht)⟩
  | count n => exact ⟨hkey, .count n⟩

theorem newline_notMem (h : f.IsWritten Text.IsPrintable) : 0x0a ∉ f.text := by
  obtain ⟨hkey, hv⟩ := h
  intro hmem
  have hchar : '\n' ∈ _ := Text.ofUInt8_mem_of_mem_ofChars (by decide) hmem
  rcases List.mem_append.1 hchar with hchar | hchar
  · simpa [Spot.isWordChar] using List.all_eq_true.1 (isKey_of_mem_suiteKeys hkey).2 _ hchar
  · simp [hv.newline_notMem] at hchar

theorem fits (h : f.IsWritten P) : f.Fits := by
  obtain ⟨hkey, hv⟩ := h
  exact ⟨ofPlain_of_mem_suiteKeys hkey, hv.isScalar⟩

theorem line_fits (h : f.IsWritten P) (hP : ∀ t, P t → (Value.ofText t).Fits) (lead : Lead) :
    (f.line lead).Fits := by
  obtain ⟨hkey, hv⟩ := h
  exact ⟨isKey_of_mem_suiteKeys hkey, hv.fits hP⟩

theorem fits_or_asks (h : f.IsWritten Text.IsPrintable) (lead : Lead) :
    (f.line lead).Fits ∨ (f.line lead).Asks := by
  obtain ⟨hkey, hv⟩ := h
  exact hv.fits_or_asks.imp (fun hfits => ⟨isKey_of_mem_suiteKeys hkey, hfits⟩)
    fun hasks => ⟨isKey_of_mem_suiteKeys hkey, hasks⟩

end Field.IsWritten

theorem Field.text_ne_nil (f : Field) : f.text ≠ [] := by
  rw [Field.text, Text.ofChars_append, Text.ofChars_cons]
  simp

/-- The line of a field as a text. -/
theorem Field.ofChars_line (lead : Lead) (f : Field) :
    Text.ofChars (f.line lead).chars = Text.ofChars lead.chars ++ f.text ++ utf8 "\n" := by
  simp only [Line.chars, Field.line, Field.text, Text.ofChars_append, List.append_assoc]
  rfl

/-- An item of fields is written as its lines. -/
theorem Field.write_itemLines {f : Field} {fs : List Field}
    (hfs : ∀ g ∈ f :: fs, g.IsWritten Text.IsPrintable) :
    utf8 "- " ++ indentRest (Text.join (utf8 "\n") ((f :: fs).map Field.text)) ++ utf8 "\n" =
      Text.ofChars ((Field.itemLines (f :: fs)).flatMap Line.chars) := by
  have hnewline : ∀ m ∈ (f :: fs).map Field.text, 0x0a ∉ m := by
    intro m hm
    obtain ⟨g, hg, rfl⟩ := List.mem_map.1 hm
    exact (hfs g hg).newline_notMem
  have hne : ∀ m ∈ fs.map Field.text, m ≠ [] := by
    intro m hm
    obtain ⟨g, -, rfl⟩ := List.mem_map.1 hm
    exact g.text_ne_nil
  rw [List.map_cons] at hnewline ⊢
  have hlines : (fs.map (Field.line .indent)).flatMap (fun l => Text.ofChars l.chars) =
      (fs.map fun g => blockIndent ++ g.text).flatMap (· ++ utf8 "\n") := by
    rw [List.flatMap_map, List.flatMap_map]
    exact List.flatMap_congr fun g _ => g.ofChars_line .indent
  rw [indentRest_join hnewline hne, List.append_assoc, join_append, Text.ofChars, List.flatMap_assoc,
    Field.itemLines, List.flatMap_cons, List.flatMap_cons, List.map_map, ← List.append_assoc,
    ← List.append_assoc]
  exact congrArg₂ (· ++ ·) (f.ofChars_line .dash).symm hlines.symm

theorem Field.isWritten_of_mem {P : Text → Prop} {vs : List (String × Option Value)}
    (h : ∀ kv ∈ vs, ∀ v ∈ kv.2, kv.1 ∈ suiteKeys ∧ v.IsWritten P) :
    ∀ f ∈ vs.filterMap Field.ofValue?, f.IsWritten P := by
  intro f hf
  obtain ⟨⟨key, v⟩, hmem, hfield⟩ := List.mem_filterMap.1 hf
  obtain ⟨v, rfl, rfl⟩ := Option.map_eq_some_iff.1 hfield
  obtain ⟨hkey, hv⟩ := h _ hmem v rfl
  exact ⟨hkey, hv⟩

/-- Of the keys of a record some are written, in their order. -/
theorem Field.keys_sublist (vs : List (String × Option Value)) :
    ((vs.filterMap Field.ofValue?).map fun f => Text.ofChars f.key).Sublist
      (vs.map fun kv => utf8 kv.1) := by
  induction vs with
  | nil => exact .slnil
  | cons kv vs ih =>
    obtain ⟨key, v⟩ := kv
    cases v with
    | none => exact ih.cons (utf8 key)
    | some v => exact ih.cons_cons (utf8 key)

end Yaml

open Yaml (Value Field Line)

theorem textField_eq (key : String) {t : Text} (ht : t.IsPrintable) :
    textField key t = Field.text ⟨key.toList, .ofText t⟩ := by
  rw [textField, keyField, Field.text, Text.ofChars_append, Text.ofChars_cons, ← Yaml.writeScalar_eq ht,
    List.append_assoc]
  rfl

theorem countField_eq (key : String) (n : Nat) :
    countField key n = Field.text ⟨key.toList, .ofCount n⟩ := by
  rw [countField, keyField, Field.text, Text.ofChars_append, Text.ofNat_eq_ofChars, List.append_assoc]
  rfl

/-! ### Cases -/

namespace Case

/-- The texts of a case. -/
def texts (c : Case) : List Text := [c.name, c.input, c.output, c.outcome]

/-- The keys of a case with what is written after each. -/
def values (c : Case) : List (String × Option Value) :=
  [("name", some (.ofText c.name)), ("input", some (.ofText c.input)),
    ("output", if c.output = [] then none else some (.ofText c.output)),
    ("outcome", if c.outcome = [] then none else some (.ofText c.outcome)),
    ("steps", c.steps.map .ofCount),
    ("max_steps", if c.maxSteps = 0 then none else some (.ofCount c.maxSteps))]

/-- The fields of a case that are written. -/
def lineFields (c : Case) : List Field := c.values.filterMap Field.ofValue?

variable {c : Case}

theorem fields_eq (h : ∀ t ∈ c.texts, t.IsPrintable) : c.fields = c.lineFields.map Field.text := by
  simp only [texts, List.forall_mem_cons] at h
  obtain ⟨hname, hinput, houtput, houtcome, -⟩ := h
  -- a field that may be left out is a list of at most one line
  have hoptional : ∀ (key : String) (p : Prop) [Decidable p] (v : Value),
      (if p then [] else [Field.text ⟨key.toList, v⟩]) =
        (Field.ofValue? (key, if p then none else some v)).toList.map Field.text := by
    intro key p _ v
    split <;> rfl
  have hsteps : c.steps.toList.map (countField "steps") =
      (Field.ofValue? ("steps", c.steps.map .ofCount)).toList.map Field.text := by
    cases c.steps with
    | none => rfl
    | some n => exact congrArg ([·]) (countField_eq "steps" n)
  rw [fields, textField_eq _ hname, textField_eq _ hinput, textField_eq _ houtput,
    textField_eq _ houtcome, countField_eq, hsteps, hoptional, hoptional, hoptional, lineFields,
    List.filterMap_eq_flatMap_toList]
  simp only [values, List.flatMap_cons, List.flatMap_nil, List.map_append, List.append_assoc,
    List.append_nil]
  rfl

theorem isWritten_of_mem (c : Case) : ∀ f ∈ c.lineFields, f.IsWritten (· ∈ c.texts) := by
  refine Field.isWritten_of_mem ?_
  simp only [values, List.forall_mem_cons, Option.mem_def, Option.some.injEq,
    Option.ite_none_left_eq_some, Option.map_eq_some_iff]
  refine ⟨?_, ?_, ?_, ?_, ?_, ?_, by simp⟩
  · rintro v rfl
    exact ⟨by decide, .text (by simp [texts])⟩
  · rintro v rfl
    exact ⟨by decide, .text (by simp [texts])⟩
  · rintro v ⟨-, rfl⟩
    exact ⟨by decide, .text (by simp [texts])⟩
  · rintro v ⟨-, rfl⟩
    exact ⟨by decide, .text (by simp [texts])⟩
  · rintro v ⟨n, -, rfl⟩
    exact ⟨by decide, .count n⟩
  · rintro v ⟨-, rfl⟩
    exact ⟨by decide, .count _⟩

/-- Every text of a case is written, unless it is empty. -/
theorem exists_field {t : Text} (h : t ∈ c.texts) (hne : t ≠ []) :
    ∃ key, (⟨key, .ofText t⟩ : Field) ∈ c.lineFields := by
  simp only [texts, List.mem_cons, List.not_mem_nil, or_false] at h
  rcases h with rfl | rfl | rfl | rfl
  · exact ⟨_, List.mem_filterMap.2 ⟨("name", some (.ofText c.name)), by simp [values], rfl⟩⟩
  · exact ⟨_, List.mem_filterMap.2 ⟨("input", some (.ofText c.input)), by simp [values], rfl⟩⟩
  · exact ⟨_, List.mem_filterMap.2 ⟨("output", some (.ofText c.output)), by simp [values, hne], rfl⟩⟩
  · exact ⟨_, List.mem_filterMap.2 ⟨("outcome", some (.ofText c.outcome)), by simp [values, hne], rfl⟩⟩

theorem nodup_values (c : Case) : (c.values.map fun kv => utf8 kv.1).Nodup := by
  change (["name", "input", "output", "outcome", "steps", "max_steps"].map utf8).Nodup
  decide

theorem isRecord (c : Case) : Yaml.IsRecord c.lineFields where
  ne_nil := List.cons_ne_nil _ _
  fits f hf := (c.isWritten_of_mem f hf).fits
  nodup := (Field.keys_sublist c.values).nodup c.nodup_values

theorem write_eq (h : ∀ t ∈ c.texts, t.IsPrintable) :
    c.write = Text.ofChars ((Field.itemLines c.lineFields).flatMap Line.chars) := by
  rw [write, fields_eq h]
  exact Field.write_itemLines fun f hf => (c.isWritten_of_mem f hf).mono h

end Case

/-! ### Suites -/

namespace Suite

/-- The keys of a suite, apart from that of the cases, with what is written after each. -/
def values (s : Suite) : List (String × Option Value) :=
  [("max_steps", if s.maxSteps = 0 then none else some (.ofCount s.maxSteps))]

/-- The lines of a suite with the given cases. -/
def lines (s : Suite) (ds : List Case) : List Line :=
  Yaml.documentLines (s.values.filterMap Field.ofValue?) "cases".toList (ds.map Case.lineFields)

variable {s : Suite} {ds : List Case}

theorem isWritten_of_mem (P : Text → Prop) :
    ∀ f ∈ s.values.filterMap Field.ofValue?, f.IsWritten P := by
  refine Field.isWritten_of_mem fun kv hkv v hv => ?_
  obtain rfl := List.mem_singleton.1 hkv
  obtain ⟨-, hv⟩ := Option.ite_none_left_eq_some.1 hv
  obtain rfl := Option.some.inj hv
  exact ⟨show "max_steps" ∈ Yaml.suiteKeys by decide, .count _⟩

/-- Every line that is written can be read, unless it looks like the start of a key. -/
theorem fits_or_asks (hds : ∀ d ∈ ds, ∀ t ∈ d.texts, t.IsPrintable) :
    ∀ l ∈ s.lines ds, l.Fits ∨ l.Asks := by
  refine Yaml.forall_mem_documentLines ?_ (.inl ⟨by decide, trivial⟩) (.inl ⟨by decide, trivial⟩) ?_
  · exact fun f hf => (isWritten_of_mem _ f hf).fits_or_asks .none
  · intro gs hgs g hg lead
    obtain ⟨d, hd, rfl⟩ := List.mem_map.1 hgs
    exact ((d.isWritten_of_mem g hg).mono (hds d hd)).fits_or_asks lead

/-- The lines of a suite fit exactly if its texts do. -/
theorem fits_iff : (∀ l ∈ s.lines ds, l.Fits) ↔ ∀ d ∈ ds, ∀ t ∈ d.texts, (Value.ofText t).Fits := by
  constructor
  · intro hlines d hd t ht
    by_cases hne : t = []
    · rw [hne, Value.ofText_nil]
      exact fun c hc => absurd hc List.not_mem_nil
    · obtain ⟨key, hf⟩ := Case.exists_field ht hne
      obtain ⟨lead, hl⟩ := Field.exists_mem_itemLines hf
      have hmem : Field.line lead ⟨key, .ofText t⟩ ∈ s.lines ds := by
        rw [lines, Yaml.documentLines, if_neg (by simpa using List.ne_nil_of_mem hd)]
        exact List.mem_append_right _ (List.mem_cons_of_mem _
          (List.mem_flatMap.2 ⟨d.lineFields, List.mem_map_of_mem hd, hl⟩))
      exact (hlines _ hmem).value
  · intro htexts
    refine Yaml.forall_mem_documentLines ?_ ⟨by decide, trivial⟩ ⟨by decide, trivial⟩ ?_
    · exact fun f hf => (isWritten_of_mem (fun _ => False) f hf).line_fits (fun _ => False.elim) .none
    · intro gs hgs g hg lead
      obtain ⟨d, hd, rfl⟩ := List.mem_map.1 hgs
      exact (d.isWritten_of_mem g hg).line_fits (htexts d hd) lead

/-- **A suite is written as its lines.** -/
theorem write_eq (hcases : s.cases = ds.map some) (hds : ∀ d ∈ ds, ∀ t ∈ d.texts, t.IsPrintable) :
    s.write = Text.ofChars ((s.lines ds).flatMap Line.chars) := by
  have hlimit : (if s.maxSteps = 0 then [] else countField "max_steps" s.maxSteps ++ utf8 "\n") =
      Text.ofChars
        (((s.values.filterMap Field.ofValue?).map (Field.line .none)).flatMap Line.chars) := by
    rw [countField_eq, values]
    split
    · rfl
    · have hline := Field.ofChars_line .none ⟨"max_steps".toList, .ofCount s.maxSteps⟩
      exact hline.symm.trans (congrArg Text.ofChars (List.flatMap_singleton Line.chars _).symm)
  have hitems : s.cases.flatMap writeItem =
      Text.ofChars (((ds.map Case.lineFields).flatMap Field.itemLines).flatMap Line.chars) := by
    rw [hcases, List.flatMap_map, List.flatMap_map, List.flatMap_assoc, Text.ofChars,
      List.flatMap_assoc]
    exact List.flatMap_congr fun d hd => Case.write_eq (hds d hd)
  rw [write, hlimit, hitems, lines, Yaml.documentLines, List.flatMap_append, Text.ofChars_append,
    hcases]
  congr 1
  cases ds with
  | nil => rfl
  | cons d ds => rfl

end Suite

end CallByValue
