import CallByValue.Proofs.Suite.Accepted
import CallByValue.Proofs.Suite.Written
import CallByValue.Suite.Reader

/-!
# Suites are read back

What is written of a case is a record, whose keys are looked up one by one; a key that was left out has
the default that it was left out for.  So a suite is read as it was written, apart from texts that do
not stand for themselves without quotes (`Suite.read?_write`).

**Main theorem** (`Suite.load_write_iff`): an accepted suite of printable texts is loaded from what is
written of it, with the same limit and the same cases in the same order, exactly if none of its texts is
`Yaml.Misread`.  A term may be such a text, as a question mark is a name (`Suite.question_not_loaded`).
-/

namespace CallByValue

namespace Yaml

/-! ### Records -/

/-- The entry of a field. -/
def Field.entry (f : Field) : Text × Node := (Text.ofChars f.key, .scalar f.value.scalar)

variable {key : String} {v : Option Value}

/-- The entries of a map with some of the given keys, in their order. -/
theorem Node.entriesOf?_map {es : List (Text × Node)} {keys : List Text}
    (hkeys : (es.map Prod.fst).Sublist keys) (hnodup : keys.Nodup) :
    (Node.map (es.map fun e => (.text e.1, e.2))).entriesOf? keys = some es := by
  have htexts : (es.map fun e => ((.text e.1, e.2) : Scalar × Node)).mapM textKey? = some es := by
    rw [List.mapM_map]
    exact (mapM_eq_some_map fun _ _ => rfl).trans (congrArg some (List.map_id es))
  have hknown : ∀ e ∈ es, e.1 ∈ keys := fun e he => hkeys.subset (List.mem_map_of_mem he)
  rw [entriesOf?, htexts]
  dsimp only
  rw [if_pos]
  simpa [hkeys.nodup hnodup] using fun t n hmem => hknown (t, n) hmem

theorem Field.map_toPair (fs : List Field) :
    fs.map Field.toPair = (fs.map Field.entry).map fun e => (.text e.1, e.2) := by
  rw [List.map_map]
  rfl

/-- Of the keys of a record some are among its entries, in their order. -/
theorem Field.entry_sublist (vs : List (String × Option Value)) :
    (((vs.filterMap Field.ofValue?).map Field.entry).map Prod.fst).Sublist
      (vs.map fun kv => utf8 kv.1) := by
  rw [List.map_map]
  exact Field.keys_sublist vs

theorem Node.lookup_eq_none (vs : List (String × Option Value))
    (hkey : utf8 key ∉ vs.map fun kv => utf8 kv.1) :
    ((vs.filterMap Field.ofValue?).map Field.entry).lookup (utf8 key) = none := by
  refine List.lookup_eq_none_iff.2 fun e he => ?_
  rw [bne_iff_ne]
  exact fun heq => hkey (heq ▸ (Field.entry_sublist vs).subset (List.mem_map_of_mem he))

/-- A key is looked up as what is written after it. -/
theorem Node.lookup_entries (vs : List (String × Option Value))
    (hnodup : (vs.map fun kv => utf8 kv.1).Nodup) (hmem : (key, v) ∈ vs) :
    ((vs.filterMap Field.ofValue?).map Field.entry).lookup (utf8 key) =
      v.map fun v => .scalar v.scalar := by
  induction vs with
  | nil => simp at hmem
  | cons kv vs ih =>
    obtain ⟨hnotMem, htail⟩ := List.nodup_cons.1 hnodup
    rcases List.mem_cons.1 hmem with rfl | hlater
    · cases v with
      | none => exact lookup_eq_none vs hnotMem
      | some v => exact List.lookup_cons_self
    -- the first key is another one, whether it is written or left out
    · obtain ⟨key', v'⟩ := kv
      have hne : (utf8 key == utf8 key') = false := by
        rw [beq_eq_false_iff_ne]
        intro heq
        have hkey := List.mem_map_of_mem (f := fun kv : String × Option Value => utf8 kv.1) hlater
        exact hnotMem (show utf8 key' ∈ _ from heq ▸ hkey)
      cases v' with
      | none => exact ih htail hlater
      | some v' =>
        change List.lookup (utf8 key) ((utf8 key', _) :: _) = _
        rw [List.lookup_cons, hne]
        exact ih htail hlater

/-! ### Texts -/

/-- What is read where a text has been written. -/
def reread (t : Text) : Text := (Value.ofText t).scalar.toText

/-- A text that is written without quotes and yet not read as itself: it looks like the start of a key,
or it is a word for a number. -/
def Misread (t : Text) : Prop := needsQuotes t = false ∧ (utf8 "? " <+: t ∨ t ∈ floatWords)

instance (t : Text) : Decidable (Misread t) := inferInstanceAs (Decidable (_ ∧ _))

theorem question_prefix_iff {cs : List Char} : utf8 "? " <+: Text.ofChars cs ↔ ['?', ' '] <+: cs := by
  constructor
  · rintro ⟨t, ht⟩
    obtain ⟨cs, rfl, hcs⟩ := Text.ofChars_eq_cons (b := 0x3f) (by decide) ht.symm
    obtain ⟨cs, rfl, -⟩ := Text.ofChars_eq_cons (b := 0x20) (by decide) hcs
    exact ⟨cs, rfl⟩
  · rintro ⟨cs, rfl⟩
    exact ⟨Text.ofChars cs, (Text.ofChars_append _ _).symm⟩

/-- A text of printable characters is read as itself exactly if it is not misread. -/
theorem fits_and_reread_iff {t : Text} (ht : t.IsPrintable) :
    (Value.ofText t).Fits ∧ reread t = t ↔ ¬ Misread t := by
  obtain ⟨cs, rfl, hcs⟩ := ht.exists_chars
  rw [reread, Value.ofText, Text.chars_ofChars, Misread, question_prefix_iff]
  cases hquotes : needsQuotes (Text.ofChars cs) with
  | true =>
    have hline : ∀ c ∈ cs, isBreak c = false ∧ c ≠ '\t' := fun c hc => isBreak_of_isPrintable (hcs c hc)
    simpa [Value.Fits, Value.scalar, Scalar.toText] using hline
  | false =>
    constructor
    · rintro ⟨hfits, hread⟩ ⟨-, ⟨ds, rfl⟩ | hword⟩
      · obtain ⟨c, es, hstart, -, -, hquestion⟩ := hfits.starts
        obtain ⟨rfl, rfl⟩ := List.cons.inj hstart
        simpa [isSpace] using hquestion rfl
      · exact Scalar.toText_ofPlain_ne hword hread
    · intro hnot
      obtain ⟨hquestion, hword⟩ := not_or.1 fun h => hnot ⟨rfl, h⟩
      exact ⟨plain_of_needsQuotes hcs hquotes hquestion,
        congrArg Scalar.toText (Scalar.ofPlain_of_needsQuotes hquotes hword)⟩

/-! ### Fields -/

theorem reread_nil : reread [] = [] := by
  rw [reread, Value.ofText_nil]
  rfl

theorem Node.readText?_optional (t : Text) :
    ((((if t = [] then none else some (Value.ofText t)).map fun v => .scalar v.scalar).getD .null :
      Node).readText?) = some (reread t) := by
  split
  · next h =>
    rw [h, reread_nil]
    rfl
  · rfl

theorem Value.scalar_ofCount {n : Nat} (h : n < 2 ^ 64) : (Value.ofCount n).scalar = .int n := by
  rw [ofCount, scalar, ← Text.ofNat_eq_ofChars, Scalar.ofPlain_ofNat h]

theorem Node.readCount?_optional {o : Option Nat} (h : ∀ n ∈ o, n < 2 ^ 64) :
    (((o.map Value.ofCount).map fun v => .scalar v.scalar).getD .null : Node).readCount? = some o := by
  cases o with
  | none => rfl
  | some n =>
    rw [Option.map_some, Option.map_some, Value.scalar_ofCount (h n rfl)]
    rfl

theorem Node.readCount?_limit {n : Nat} (h : n < 2 ^ 64) :
    ((((if n = 0 then none else some (Value.ofCount n)).map fun v => .scalar v.scalar).getD .null :
      Node).readCount?).map (·.getD 0) = some n := by
  split
  · next h0 =>
    subst h0
    rfl
  · rw [Option.map_some, Value.scalar_ofCount h]
    rfl

end Yaml

open Yaml (Field Line Node Scalar Value)

namespace Case

/-- What is read where a case has been written. -/
def reread (c : Case) : Case where
  name := Yaml.reread c.name
  input := Yaml.reread c.input
  output := Yaml.reread c.output
  outcome := Yaml.reread c.outcome
  steps := c.steps
  maxSteps := c.maxSteps

variable {c : Case}

theorem ofNode?_node (hsteps : ∀ n ∈ c.steps, n < 2 ^ 64) (hlimit : c.maxSteps < 2 ^ 64) :
    ofNode? (Field.node c.lineFields) = some c.reread := by
  have hentries : (Field.node c.lineFields).entriesOf? keys = some (c.lineFields.map Field.entry) := by
    rw [Field.node, Field.map_toPair]
    exact Node.entriesOf?_map (Field.entry_sublist c.values) c.nodup_values
  have hfield : ∀ kv ∈ c.values, Node.field (c.lineFields.map Field.entry) kv.1 =
      (kv.2.map fun v => .scalar v.scalar).getD .null := by
    intro kv hkv
    exact congrArg (Option.getD · Node.null) (Node.lookup_entries c.values c.nodup_values hkv)
  simp only [values, List.forall_mem_cons] at hfield
  obtain ⟨hname, hinput, houtput, houtcome, hcount, hmax, -⟩ := hfield
  obtain ⟨o, ho, hmaxSteps⟩ := Option.map_eq_some_iff.1 (Node.readCount?_limit hlimit)
  simp only [ofNode?, hentries, hname, hinput, houtput, houtcome, hcount, hmax, ho,
    Node.readText?_optional, Node.readCount?_optional hsteps, hmaxSteps, Option.bind_eq_bind,
    Option.bind_some]
  rfl

theorem reread_eq_iff : c.reread = c.unparsed ↔ ∀ t ∈ c.texts, Yaml.reread t = t := by
  simp [reread, unparsed, texts]

end Case

namespace Suite

variable {s : Suite} {ds : List Case}

theorem casesOfNode?_list (hsteps : ∀ d ∈ ds, ∀ n ∈ d.steps, n < 2 ^ 64)
    (hlimits : ∀ d ∈ ds, d.maxSteps < 2 ^ 64) :
    casesOfNode? (.list ((ds.map Case.lineFields).map Field.node)) =
      some (ds.map (some ∘ Case.reread)) := by
  change ((ds.map Case.lineFields).map Field.node).mapM itemOfNode? = _
  rw [List.mapM_map, List.mapM_map]
  refine mapM_eq_some_map fun d hd => ?_
  exact congrArg (Option.map some) (Case.ofNode?_node (hsteps d hd) (hlimits d hd))

theorem ofNode?_document {ns : List Node} {cases : List (Option Case)} (hlimit : s.maxSteps < 2 ^ 64)
    (hns : casesOfNode? (.list ns) = some cases) :
    ofNode? (.map ((s.values.filterMap Field.ofValue?).map Field.toPair ++
      [(.text (utf8 "cases"), .list ns)])) = some ⟨s.maxSteps, cases⟩ := by
  let es := (s.values.filterMap Field.ofValue?).map Field.entry
  have hentries : (Node.map ((s.values.filterMap Field.ofValue?).map Field.toPair ++
      [(.text (utf8 "cases"), .list ns)])).entriesOf? keys =
        some (es ++ [(utf8 "cases", .list ns)]) := by
    have hkeys : ((es ++ [(utf8 "cases", Node.list ns)]).map Prod.fst).Sublist keys := by
      rw [List.map_append]
      exact (Field.entry_sublist s.values).append (.refl _)
    rw [Field.map_toPair, ← Node.entriesOf?_map hkeys (by decide), List.map_append]
    rfl
  have hmax : Node.field (es ++ [(utf8 "cases", .list ns)]) "max_steps" =
      (Option.map (fun v => .scalar v.scalar)
        (if s.maxSteps = 0 then none else some (Value.ofCount s.maxSteps))).getD .null := by
    have hne : (utf8 "max_steps" == utf8 "cases") = false := by decide
    rw [Node.field, List.lookup_append, Node.lookup_entries s.values (List.nodup_singleton _)
      (List.mem_singleton_self _), List.lookup_cons, hne]
    simp
  have hcases : Node.field (es ++ [(utf8 "cases", .list ns)]) "cases" = .list ns := by
    rw [Node.field, List.lookup_append, Node.lookup_eq_none s.values, Option.none_or,
      List.lookup_cons_self, Option.getD_some]
    change utf8 "cases" ∉ ["max_steps"].map utf8
    decide
  obtain ⟨o, ho, hmaxSteps⟩ := Option.map_eq_some_iff.1 (Node.readCount?_limit hlimit)
  simp only [ofNode?, hentries, hmax, hcases, ho, hns, hmaxSteps, Option.bind_eq_bind, Option.bind_some]
  rfl

/-- A suite whose lines fit is read, with every text as it is read where it has been written. -/
theorem read?_write (hcases : s.cases = ds.map some) (hrange : s.InRange)
    (hds : ∀ d ∈ ds, ∀ t ∈ d.texts, t.IsPrintable) (hfits : ∀ l ∈ s.lines ds, l.Fits) :
    read? s.write = some ⟨s.maxSteps, ds.map (some ∘ Case.reread)⟩ := by
  have hmem : ∀ d ∈ ds, some d ∈ s.cases := fun d hd => hcases ▸ List.mem_map_of_mem hd
  have hlist := casesOfNode?_list (fun d hd n hn => hrange.caseSteps d (hmem d hd) n hn)
    fun d hd => hrange.caseMaxSteps d (hmem d hd)
  have hkeys : (((s.values.filterMap Field.ofValue?).map fun f => Text.ofChars f.key) ++
      [utf8 "cases"]).Nodup := by
    refine List.Sublist.nodup ((Field.keys_sublist s.values).append (.refl _)) ?_
    change (["max_steps", "cases"].map utf8).Nodup
    decide
  have hrecords : ∀ cs ∈ ds.map Case.lineFields, Yaml.IsRecord cs := by
    intro cs hcs
    obtain ⟨d, hd, rfl⟩ := List.mem_map.1 hcs
    exact d.isRecord
  have hread := Yaml.readAll?_document (fun f hf => (isWritten_of_mem Text.IsPrintable f hf).fits)
    (Yaml.ofPlain_of_mem_suiteKeys (by decide : "cases" ∈ Yaml.suiteKeys)) hkeys hrecords hfits
  rw [write_eq hcases hds, read?, lines, hread]
  exact ofNode?_document hrange.maxSteps hlist

theorem read?_write_eq_none (hcases : s.cases = ds.map some)
    (hds : ∀ d ∈ ds, ∀ t ∈ d.texts, t.IsPrintable) (hasks : ¬ ∀ l ∈ s.lines ds, l.Fits) :
    read? s.write = none := by
  rw [write_eq hcases hds, read?, lines, Yaml.readAll?_document_eq_none (fits_or_asks hds) hasks]
  rfl

/-! ### Loading -/

/-- What is loaded has been read and is accepted. -/
theorem map_unparsed_load_iff {t : Text} {u : Suite} :
    (load t).map unparsed = .ok u ↔ ∃ r, read? t = some r ∧ r.validate.2 = none ∧ r.unparsed = u := by
  rw [load, loadWith]
  cases hread : read? t with
  | none => simp [Except.map]
  | some r =>
    have hkeep := unparsed_validate (s := r)
    rcases hvalidate : r.validate with ⟨r', - | fault⟩
    · rw [hvalidate] at hkeep
      simp [Except.map, hvalidate, hkeep]
    · simp [Except.map, hvalidate]

/-- A suite that is read holds no terms. -/
theorem unparsed_reread (n : Nat) (ds : List Case) :
    (⟨n, ds.map (some ∘ Case.reread)⟩ : Suite).unparsed = ⟨n, ds.map (some ∘ Case.reread)⟩ := by
  rw [unparsed, List.map_map]
  rfl

theorem unparsed_eq_reread_iff (hcases : s.cases = ds.map some) :
    s.unparsed = (⟨s.maxSteps, ds.map (some ∘ Case.reread)⟩ : Suite).unparsed ↔
      ∀ d ∈ ds, d.reread = d.unparsed := by
  rw [unparsed_reread, unparsed_eq hcases, List.map_map, mk.injEq, List.map_inj_left]
  simp [eq_comm]

/-- **Writing and loading.**  A suite that is accepted and holds only printable characters is loaded
from what is written of it exactly if none of its texts is misread. -/
theorem load_write_iff (s : Suite) (haccepted : s.validate.2 = none) (hrange : s.InRange)
    (hprintable : ∀ c, some c ∈ s.cases → ∀ t ∈ c.texts, t.IsPrintable) :
    (load s.write).map unparsed = .ok s.unparsed ↔
      ∀ c, some c ∈ s.cases → ∀ t ∈ c.texts, ¬ Yaml.Misread t := by
  obtain ⟨ds, hcases, -, -⟩ := validate_eq_none_iff.1 haccepted
  have hmem : ∀ {c}, some c ∈ s.cases ↔ c ∈ ds := by simp [hcases]
  simp only [hmem] at hprintable ⊢
  -- the texts decide both whether the lines are read and what is read from them
  have htexts : (∀ d ∈ ds, ∀ t ∈ d.texts, ¬ Yaml.Misread t) ↔
      (∀ l ∈ s.lines ds, l.Fits) ∧ ∀ d ∈ ds, d.reread = d.unparsed := by
    simp only [fits_iff, Case.reread_eq_iff, ← forall_and]
    refine forall₂_congr fun d hd => forall₂_congr fun t ht => ?_
    exact (Yaml.fits_and_reread_iff (hprintable d hd t ht)).symm
  rw [htexts, map_unparsed_load_iff]
  by_cases hfits : ∀ l ∈ s.lines ds, l.Fits
  · have hread := read?_write hcases hrange hprintable hfits
    have hsame := unparsed_eq_reread_iff hcases
    constructor
    · rintro ⟨r, hr, -, hunparsed⟩
      obtain rfl := Option.some.inj (hread.symm.trans hr)
      exact ⟨hfits, hsame.1 hunparsed.symm⟩
    · rintro ⟨-, htexts⟩
      refine ⟨_, hread, ?_, (hsame.2 htexts).symm⟩
      rw [← unparsed_reread, ← hsame.2 htexts]
      exact validate_unparsed haccepted
  · rw [read?_write_eq_none hcases hprintable hfits]
    simp [hfits]

/-- Signs and words that are quoted, and a number of steps that is zero. -/
theorem load_write_signs :
    let s : Suite := ⟨50, [
      some { name := utf8 "no", input := utf8 "\\x. x", output := utf8 "(y: y)"
             outcome := utf8 "value", steps := some 0, maxSteps := 7 },
      some { name := utf8 "- [? #]", input := utf8 "f (x: x)", output := utf8 "f (x: x)" }]⟩
    s.validate.2 = none ∧ s.InRange ∧ (∀ c, some c ∈ s.cases → ∀ t ∈ c.texts, t.IsPrintable) ∧
      (load s.write).map unparsed = .ok s.unparsed := by
  intro s
  have haccepted : s.validate.2 = none := by decide +kernel
  have hrange : s.InRange := by
    constructor
    · decide
    · simp [s]
    · simp [s]
  have hprintable : ∀ c, some c ∈ s.cases → ∀ t ∈ c.texts, t.IsPrintable := by
    simp only [s, List.mem_cons, Option.some.injEq, List.not_mem_nil, or_false, forall_eq_or_imp,
      forall_eq]
    decide +kernel
  refine ⟨haccepted, hrange, hprintable, (load_write_iff s haccepted hrange hprintable).2 ?_⟩
  simp only [s, List.mem_cons, Option.some.injEq, List.not_mem_nil, or_false, forall_eq_or_imp,
    forall_eq]
  decide +kernel

/-- A term that starts with a question mark is not loaded again. -/
theorem question_not_loaded :
    let s : Suite := ⟨0, [some { name := utf8 "a", input := utf8 "? x" }]⟩
    s.validate.2 = none ∧ s.InRange ∧ (∀ c, some c ∈ s.cases → ∀ t ∈ c.texts, t.IsPrintable) ∧
      load s.write = .error .malformed := by
  intro s
  refine ⟨by decide +kernel, ?_, ?_, by decide +kernel⟩
  · constructor
    · decide
    · simp [s]
    · simp [s]
  · simp only [s, List.mem_singleton, Option.some.injEq, forall_eq]
    decide +kernel

end Suite

end CallByValue
