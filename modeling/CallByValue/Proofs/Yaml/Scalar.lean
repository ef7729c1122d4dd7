import CallByValue.Proofs.Yaml.Scan
import CallByValue.Yaml.Node
import CallByValue.Yaml.Writer

/-!
# Scalars that are written plain

Whether a text is put in quotes is decided by the writer (`needsQuotes`), and what a scalar without
quotes stands for by the reader.  The two agree on almost every text: one that needs no quotes is
scanned as a plain scalar (`plain_of_needsQuotes`) and stands for itself
(`Scalar.ofPlain_of_needsQuotes`).  They differ on a text that starts with a question mark and a blank,
and on the words for infinities and for no number (`floatWords`), which come back with another spelling
(`Scalar.toText_ofPlain_ne`).  Numbers below 2⁶⁴ are read as they were written
(`Scalar.ofPlain_ofNat`).
-/

namespace CallByValue

/-- A step that never fails. -/
theorem mapM_eq_some_map {α β : Type} {l : List α} {f : α → Option β} {g : α → β}
    (h : ∀ a ∈ l, f a = some (g a)) : l.mapM f = some (l.map g) := by
  induction l with
  | nil => rfl
  | cons a l ih =>
    obtain ⟨ha, hl⟩ := List.forall_mem_cons.1 h
    simp [ha, ih hl]

/-! ### Decimal numbers -/

/-- A positive number has no zeros before its digits. -/
theorem Text.head?_ofNat_ne_zero {n : Nat} (h : 0 < n) : (Text.ofNat n).head? ≠ some 0x30 := by
  induction n using Nat.strongRecOn with
  | ind n ih =>
    rw [Text.ofNat]
    rcases Nat.lt_or_ge n 10 with hn | hn
    · have hdigits : ∀ d < 10, 0 < d → ([Nat.digitChar d].map Char.toUInt8).head? ≠ some 0x30 := by
        decide
      rw [Nat.toDigits_of_lt_base hn]
      exact hdigits n hn h
    · have hhead := ih (n / 10) (by omega) (by omega)
      rw [Text.ofNat] at hhead
      rw [Nat.toDigits_of_base_le (by omega) hn, List.map_append, List.head?_append_of_ne_nil]
      · exact hhead
      · simp [Nat.toDigits_ne_nil]

namespace Numeral

theorem digit?_toUInt8 {n : Nat} {c : Char} (hc : c ∈ Nat.toDigits 10 n) :
    digit? c.toUInt8 = some (c.toNat - 48) := by
  obtain ⟨hlow, hhigh⟩ := Text.toNat_of_mem_toDigits hc
  have hdigit : isDigit c.toUInt8 = true := Text.isDigit_of_mem_ofNat (List.mem_map_of_mem hc)
  have hnat : c.toUInt8.toNat = c.toNat := by
    rw [Char.toUInt8, UInt32.toNat_toUInt8, Nat.mod_eq_of_lt (by omega)]
    rfl
  rw [isDigit] at hdigit
  rw [digit?, hdigit, if_pos rfl, hnat]

/-- The digits of a number spell it. -/
theorem value?_ofNat (n : Nat) : value? 10 (Text.ofNat n) = some n := by
  have hdigits : (Text.ofNat n).mapM digit? = some ((Nat.toDigits 10 n).map (·.toNat - 48)) := by
    rw [Text.ofNat, List.mapM_map]
    exact mapM_eq_some_map fun c hc => digit?_toUInt8 hc
  have hsmall : ∀ c ∈ Nat.toDigits 10 n, c.toNat - 48 < 10 := by
    intro c hc
    have hhigh : c.toNat ≤ 57 := (Text.toNat_of_mem_toDigits hc).2
    omega
  have hvalue : ((Nat.toDigits 10 n).map (·.toNat - 48)).foldl (fun n d => 10 * n + d) 0 = n := by
    rw [List.foldl_map]
    exact Nat.ofDigitChars_toDigits (by omega) (by omega)
  simpa [value?, hdigits, hvalue, Nat.toDigits_ne_nil] using hsmall

end Numeral

/-- The text of a decimal starts with a digit. -/
theorem Double.Decimal.head?_toText (d : Decimal) :
    ∃ b, d.toText.head? = some b ∧ isDigit b = true := by
  obtain ⟨b, bs, hdigits⟩ := List.exists_cons_of_ne_nil (Text.ofNat_ne_nil d.digits)
  have hb : isDigit b = true := Text.isDigit_of_mem_ofNat (hdigits ▸ List.mem_cons_self)
  rw [Decimal.toText, hdigits]
  dsimp only
  split
  · exact ⟨b, rfl, hb⟩
  · split
    · exact ⟨0x30, rfl, rfl⟩
    · split
      · exact ⟨b, rfl, hb⟩
      · exact ⟨b, rfl, hb⟩

namespace Yaml

/-! ### Printable characters -/

/-- A printable character is no control character. -/
theorem ne_of_isPrintable {c : Char} (h : isPrintable c = true) :
    c ≠ '\n' ∧ c ≠ '\r' ∧ c ≠ '\t' ∧ c ≠ '\x00' := by
  refine ⟨?_, ?_, ?_, ?_⟩ <;>
  · rintro rfl
    simp [isPrintable] at h

theorem isBreak_of_isPrintable {c : Char} (h : isPrintable c = true) :
    isBreak c = false ∧ c ≠ '\t' := by
  obtain ⟨hn, hr, ht, -⟩ := ne_of_isPrintable h
  simp [isBreak, hn, hr, ht]

/-! ### Texts that are not quoted -/

variable {t : Text} {cs : List Char}

theorem needsQuotes_eq_false :
    needsQuotes t = false ↔ t ≠ [] ∧ t ≠ utf8 "-" ∧ t ∉ reservedWords ∧ Number.read? t = none ∧
      t.head?.any quotedStarts.contains = false ∧ t.getLast?.any (utf8 ": ").contains = false ∧
      isTimestamp t = false ∧ hasMark t = false := by
  simp only [needsQuotes, Bool.or_eq_false_iff, List.isEmpty_eq_false_iff, beq_eq_false_iff_ne, ne_eq,
    List.contains_eq_mem, decide_eq_false_iff_not, Option.isSome_eq_false_iff, Option.isNone_iff_eq_none,
    and_assoc]

theorem hasMark_append_right {a b : Text} (h : hasMark (a ++ b) = false) : hasMark b = false := by
  induction a with
  | nil => exact h
  | cons x a ih =>
    rw [List.cons_append, hasMark, Bool.or_eq_false_iff] at h
    exact ih h.2

/-- A text without a mark goes on as a plain scalar, unless it ends with a colon. -/
theorem continues_of_hasMark (hcs : ∀ c ∈ cs, isPrintable c = true)
    (hmark : hasMark (Text.ofChars cs) = false) (hlast : cs.getLast? ≠ some ':') :
    Spot.Continues cs := by
  induction cs with
  | nil => trivial
  | cons c cs ih =>
    obtain ⟨hc, hothers⟩ := List.forall_mem_cons.1 hcs
    have hrest := hasMark_append_right (a := String.utf8EncodeChar c) hmark
    refine ⟨?_, ?_, ih hothers hrest ?_⟩
    · have hhash : c ≠ '#' := by
        rintro rfl
        change hasMark (0x23 :: Text.ofChars cs) = false at hmark
        simp [hasMark] at hmark
      simp [Spot.isOrdinary, hhash, ne_of_isPrintable hc]
    · rintro rfl
      cases cs with
      | nil => simp at hlast
      | cons d cs =>
        have hspace : d ≠ ' ' := by
          rintro rfl
          change hasMark (0x3a :: 0x20 :: Text.ofChars cs) = false at hmark
          simp [hasMark] at hmark
        simp [isSpace, isBreak, hspace, ne_of_isPrintable (hothers d List.mem_cons_self)]
    · cases cs with
      | nil => simp
      | cons d cs => simpa using hlast

/-- What starts like no quoted scalar starts with no sign. -/
theorem isSign_of_head? {c : Char}
    (h : (Text.ofChars (c :: cs)).head?.any quotedStarts.contains = false) : Spot.isSign c = false := by
  have hsigns : "*&[\x7b\x7d],!|>%'\"@ \x60".toList.all
      (fun d => (String.utf8EncodeChar d).head?.any quotedStarts.contains) = true := by decide
  refine Bool.eq_false_iff.2 fun hsign => ?_
  have hstart := List.all_eq_true.1 hsigns c (by simpa [Spot.isSign] using hsign)
  rw [Text.ofChars_cons, List.head?_append] at h
  cases hc : (String.utf8EncodeChar c).head? with
  | none => simp [hc] at hstart
  | some b =>
    rw [hc] at h hstart
    rw [Option.some_or, hstart] at h
    simp at h

theorem ne_of_getLast? {c : Char} (h : (Text.ofChars cs).getLast?.any (utf8 ": ").contains = false)
    (hc : cs.getLast? = some c) : c ≠ ':' ∧ c ≠ ' ' := by
  obtain ⟨ds, rfl⟩ := List.getLast?_eq_some_iff.1 hc
  rw [Text.ofChars_append] at h
  constructor
  · rintro rfl
    change ((Text.ofChars ds ++ [0x3a]).getLast?.any _) = false at h
    rw [List.getLast?_concat] at h
    exact absurd h (by decide)
  · rintro rfl
    change ((Text.ofChars ds ++ [0x20]).getLast?.any _) = false at h
    rw [List.getLast?_concat] at h
    exact absurd h (by decide)

/-- A text that needs no quotes is a plain scalar, unless it looks like the start of a key. -/
theorem plain_of_needsQuotes (hcs : ∀ c ∈ cs, isPrintable c = true)
    (hquotes : needsQuotes (Text.ofChars cs) = false) (hquestion : ¬ ['?', ' '] <+: cs) :
    Spot.Plain cs := by
  obtain ⟨hnil, hdash, -, -, hhead, hlast, -, hmark⟩ := needsQuotes_eq_false.1 hquotes
  refine ⟨continues_of_hasMark hcs hmark fun h => (ne_of_getLast? hlast h).1 rfl, ?_, ?_⟩
  · cases cs with
    | nil => exact absurd rfl hnil
    | cons c cs =>
      obtain ⟨-, hothers⟩ := List.forall_mem_cons.1 hcs
      refine ⟨c, cs, rfl, isSign_of_head? hhead, ?_, ?_⟩
      · rintro rfl
        cases cs with
        | nil => exact absurd rfl hdash
        | cons d cs =>
          have hspace : d ≠ ' ' := by
            rintro rfl
            change hasMark (0x2d :: 0x20 :: Text.ofChars cs) = false at hmark
            simp [hasMark] at hmark
          simp [isSpace, isBreak, hspace, ne_of_isPrintable (hothers d List.mem_cons_self)]
      · rintro rfl
        cases cs with
        | nil => rfl
        | cons d cs =>
          have hspace : d ≠ ' ' := by
            rintro rfl
            exact hquestion ⟨cs, rfl⟩
          simp [isSpace, hspace, ne_of_isPrintable (hothers d List.mem_cons_self)]
  · cases hc : cs.getLast? with
    | none => rfl
    | some c =>
      have hmem := hcs c (List.mem_of_getLast? hc)
      simp [isSpace, ne_of_getLast? hlast hc, ne_of_isPrintable hmem]

/-! ### Words -/

/-- The words for numbers that are no decimals. -/
def floatWords : List Text :=
  [".inf", ".Inf", ".INF", "-.inf", "-.Inf", "-.INF", ".nan", ".NaN", ".NAN"].map utf8

namespace Scalar

theorem mem_words {w : Text} (h : w ∈ words.map Prod.fst) : w ∈ reservedWords ∨ w ∈ floatWords := by
  revert w
  decide

theorem lookup_words (h : t ∉ words.map Prod.fst) : words.lookup t = none := by
  refine List.lookup_eq_none_iff.2 fun p hp => ?_
  rw [bne_iff_ne]
  rintro rfl
  exact h (List.mem_map_of_mem hp)

/-- A text that needs no quotes is read as itself, unless it is a word for a number. -/
theorem ofPlain_of_needsQuotes (hquotes : needsQuotes t = false) (hword : t ∉ floatWords) :
    ofPlain t = .text t := by
  obtain ⟨-, -, hreserved, hnumber, -⟩ := needsQuotes_eq_false.1 hquotes
  have hnot : t ∉ words.map Prod.fst := fun h => (mem_words h).elim hreserved hword
  rw [ofPlain, lookup_words hnot, hnumber]

theorem ofPlain_of_mem_floatWords (h : t ∈ floatWords) : ∃ x, ofPlain t = .float x := by
  simp only [floatWords, List.map_cons, List.map_nil, List.mem_cons, List.not_mem_nil, or_false] at h
  rcases h with rfl | rfl | rfl | rfl | rfl | rfl | rfl | rfl | rfl <;> exact ⟨_, rfl⟩

end Scalar

/-! ### Fractions -/

/-- The texts that start with a point, apart from a sign. -/
def startsWithPoint (t : Text) : Bool := (Number.dropFirst 0x2d t).head? = some 0x2e

/-- The text of a number has a digit or a letter before its point. -/
theorem startsWithPoint_toText (x : Float) : startsWithPoint (Double.toText x) = false := by
  rw [Double.toText]
  split
  · decide
  · dsimp only
    split
    · split <;> decide
    · next d _ =>
      obtain ⟨b, rest, hbody, hb⟩ : ∃ b rest, (if d.significand = 0 then utf8 "0" else
          (Double.shortest d.significand.natAbs d.exponent).toText) = b :: rest ∧ isDigit b = true := by
        split
        · exact ⟨0x30, [], rfl, rfl⟩
        · obtain ⟨b, hhead, hb⟩ := (Double.shortest d.significand.natAbs d.exponent).head?_toText
          obtain ⟨rest, hrest⟩ := List.head?_eq_some_iff.1 hhead
          exact ⟨b, rest, hrest, hb⟩
      have hsign : b ≠ 0x2d ∧ b ≠ 0x2e := by
        constructor <;> (rintro rfl; simp [isDigit] at hb)
      rw [hbody]
      split
      · simp [startsWithPoint, Number.dropFirst, hsign]
      · change startsWithPoint (0x2d :: b :: rest) = false
        simp [startsWithPoint, Number.dropFirst, hsign]

/-- A word for a number that is no decimal does not keep its spelling. -/
theorem Scalar.toText_ofPlain_ne {t : Text} (h : t ∈ floatWords) : (Scalar.ofPlain t).toText ≠ t := by
  have hwords : ∀ w ∈ floatWords, startsWithPoint w = true := by decide
  obtain ⟨x, hx⟩ := Scalar.ofPlain_of_mem_floatWords h
  intro heq
  rw [hx] at heq
  have hpoint := startsWithPoint_toText x
  rw [show Double.toText x = t from heq, hwords t h] at hpoint
  simp at hpoint

/-! ### Numbers -/

theorem Number.baseOf_ofNat (n : Nat) : Number.baseOf (Text.ofNat n) = (10, Text.ofNat n) := by
  rcases Nat.eq_zero_or_pos n with rfl | hn
  · rfl
  · have hhead := Text.head?_ofNat_ne_zero hn
    unfold baseOf
    split <;> simp_all

/-- The digits of a number that fits into 64 bits are read as the number. -/
theorem Number.read?_ofNat {n : Nat} (h : n < 2 ^ 64) :
    Number.read? (Text.ofNat n) = some (.int n) := by
  -- no byte is a sign, a point or an underscore, so nothing is taken off before the digits are read
  have hdigit : ∀ b ∈ Text.ofNat n, isDigit b = true := fun b hb => Text.isDigit_of_mem_ofNat hb
  have hnot : ∀ b, isDigit b = false → b ∉ Text.ofNat n := by
    intro b hb hmem
    rw [hdigit b hmem] at hb
    simp at hb
  have hhead : ∀ b, isDigit b = false → (Text.ofNat n).head? ≠ some b :=
    fun b hb heq => hnot b hb (List.mem_of_head? heq)
  have hdrop : ∀ b, isDigit b = false → dropFirst b (Text.ofNat n) = Text.ofNat n :=
    fun b hb => if_neg (hhead b hb)
  have hfilter : (Text.ofNat n).filter (· != 0x5f) = Text.ofNat n := by
    refine List.filter_eq_self.2 fun b hb => ?_
    rw [bne_iff_ne]
    rintro rfl
    exact hnot 0x5f rfl hb
  have hword : n < wordSize := h
  simp [read?, Text.ofNat_ne_nil, List.count_eq_zero.2 (hnot 0x2e rfl), hhead 0x5f rfl, hhead 0x2d rfl,
    hdrop 0x2b rfl, hdrop 0x2d rfl, hfilter, baseOf_ofNat, Numeral.value?_ofNat, ofInt, hword]

theorem Scalar.ofPlain_ofNat {n : Nat} (h : n < 2 ^ 64) : Scalar.ofPlain (Text.ofNat n) = .int n := by
  have hwords : ∀ w ∈ words.map Prod.fst, w.all isDigit = false := by decide
  have hnot : Text.ofNat n ∉ words.map Prod.fst := by
    intro hmem
    obtain ⟨b, hb, hdigit⟩ := List.all_eq_false.1 (hwords _ hmem)
    exact hdigit (Text.isDigit_of_mem_ofNat hb)
  rw [ofPlain, lookup_words hnot, Number.read?_ofNat h]

theorem plain_toDigits (n : Nat) : Spot.Plain (Nat.toDigits 10 n) := by
  refine Spot.plain_of_isWordChar Nat.toDigits_ne_nil fun c hc => ?_
  rw [Spot.isWordChar, Nat.isDigit_of_mem_toDigits (by omega) (by omega) hc, Bool.or_true, Bool.true_or]

end Yaml

end CallByValue
