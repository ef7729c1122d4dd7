import CallByValue.Command.Check
import CallByValue.Proofs.Suite.Accepted
import CallByValue.Proofs.Suite.History
import Mathlib.Algebra.Ring.Nat

/-!
# What checking reports

The output of a check is a list of entries: one for each case that is shown, and one with the numbers of
passing and of failing cases behind those of each file (`Command.Check.Entry`).  The check is a loop over
the files that carries the output so far and the numbers of cases so far.

* A suite that is loaded has no missing cases, so every case of it has a result
  (`Suite.exists_cases_of_loadWith`).
* Files that load make the loop go on with their entries and numbers added (`Command.Check.runFrom_loaded`).
* The numbers behind the cases of a file are those of its entries, and the error tells their sums.

**Main theorem** (`Command.Check.totals_agree_with_entries`): a check ends without an error exactly if all
files load and all their cases pass, and each of its entries is written where it belongs, once.  All that
is used of a suite is that it was validated, so any decoder of documents will do (`Command.Check.runWith`);
`Command.Check.run` is the case of `Suite.read?`.
-/

namespace CallByValue

/-! ### Loaded suites -/

theorem Case.name_parse (d : Case) : d.parse.1.name = d.name := by
  unfold parse
  split
  · rfl
  · dsimp only
    split_ifs
    · rfl
    · split <;> rfl

namespace Suite

variable {s : Suite} {t : Text}

/-- In a loaded suite no case is missing. -/
theorem exists_cases_of_loadWith {decode : Text → Option Suite} (h : loadWith decode t = .ok s) :
    ∃ cs : List Case, s.cases = cs.map some := by
  unfold loadWith at h
  cases hr : decode t with
  | none => simp [hr] at h
  | some u =>
    rcases hv : u.validate with ⟨v, f | _⟩
    · have haccepted : u.validate.2 = none := congrArg Prod.snd hv
      obtain ⟨cs, hcs, -⟩ := validate_eq_none_iff.1 haccepted
      have hparsed := validate_fst haccepted hcs
      obtain rfl : v = s := by simpa [hr, hv] using h
      rw [hv] at hparsed
      exact ⟨cs.map Case.parsed, (congrArg Suite.cases hparsed).trans List.map_map.symm⟩
    · simp [hr, hv] at h

/-- Why a case fails, if it does, in a run that nothing but its step limit may stop. -/
def failureOf? (s : Suite) (d : Case) : Option Failure := (s.runCase {} d).2.failure

/-- The case passes. -/
def Passes (s : Suite) (d : Case) : Prop := s.failureOf? d = none

instance (s : Suite) (d : Case) : Decidable (s.Passes d) := inferInstanceAs (Decidable (_ = none))

theorem name_runCase (s : Suite) (settings : Settings) (d : Case) :
    (s.runCase settings d).2.name = d.name := by
  have hname : d.term.1.name = d.name := by
    unfold Case.term
    split
    · rfl
    · exact d.name_parse
  unfold runCase
  split
  · next h => rw [h] at hname; exact hname
  · next h => rw [h] at hname; exact hname

end Suite

namespace Command.Check

/-! ### Entries -/

/-- What is written in one go. -/
inductive Entry where
  /-- The case with this name has passed. -/
  | passed (name : Text)
  /-- The case with this name has failed, for a reason. -/
  | failed (name reason : Text)
  /-- The numbers of the cases of a file that passed and that failed. -/
  | numbers (file : Text) (passed failed : Nat)

namespace Entry

/-- How an entry is written. -/
def text (p : Palette) : Entry → Text
  | passed name => p.paint (some .pass) (utf8 "PASS") ++ utf8 " " ++ name ++ utf8 "\n"
  | failed name reason =>
    p.paint (some .fail) (utf8 "FAIL") ++ utf8 " " ++ name ++ utf8 ": " ++ reason ++ utf8 "\n"
  | numbers file m n =>
    file ++ utf8 ": " ++ Text.ofNat m ++ utf8 " passed, " ++ Text.ofNat n ++ utf8 " failed\n"

/-- The entry of a case. -/
def ofCase (s : Suite) (d : Case) : Entry :=
  match s.failureOf? d with
  | none => passed d.name
  | some f => failed d.name f.message

end Entry

/-- A file that loads, with its suite and the cases of that. -/
structure Loaded (decode : Text → Option Suite) (files : Files) where
  /-- The file. -/
  file : Text
  /-- Its suite. -/
  suite : Suite
  /-- The cases of the suite. -/
  cases : List Case
  /-- The file loads as the suite. -/
  loads : loadSuite decode files file = .ok suite
  /-- No case is missing. -/
  present : suite.cases = cases.map some

namespace Loaded

variable {decode : Text → Option Suite} {files : Files} (l : Loaded decode files)

/-- How many cases pass. -/
def passing : Nat := l.cases.countP (l.suite.Passes ·)

/-- How many cases fail. -/
def failing : Nat := l.cases.countP fun d => ¬ l.suite.Passes d

/-- The entries of a file: those of the failing cases and, unless it is to be quiet, of the passing ones,
in the order of the cases, and then the numbers of both. -/
def entries (quiet : Bool) : List Entry :=
  (l.cases.filter fun d => ¬ l.suite.Passes d ∨ quiet = false).map (.ofCase l.suite) ++
    [.numbers l.file l.passing l.failing]

end Loaded

variable {c : Check} {decode : Text → Option Suite} {files : Files}

/-! ### One file -/

theorem results_eq (hc : c.cancelled = false) (l : Loaded decode files) :
    c.results l.suite = l.cases.map fun d => (l.suite.runCase {} d).2 := by
  have hcancel : cancelAt c.cancelled = none := by rw [hc]; rfl
  rw [results, hcancel, Suite.run, l.present, Suite.runFrom_map_some]
  rfl

/-- The line of a case is its entry, where that is shown. -/
theorem caseLine_runCase (c : Check) (s : Suite) (d : Case) : c.caseLine (s.runCase {} d).2 =
    if ¬ s.Passes d ∨ c.quiet = false then (Entry.ofCase s d).text (paletteOf c.color) else [] := by
  have hname := s.name_runCase {} d
  cases hf : s.failureOf? d with
  | none =>
    have hpass : s.Passes d := hf
    have hnone : (s.runCase {} d).2.failure = none := hf
    cases hq : c.quiet <;> simp [caseLine, Entry.ofCase, Entry.text, hf, hpass, hnone, hname, hq]
  | some f =>
    have hfail : ¬ s.Passes d := by simp [Suite.Passes, hf]
    have hsome : (s.runCase {} d).2.failure = some f := hf
    simp [caseLine, Entry.ofCase, Entry.text, hf, hfail, hsome, hname]

theorem flatMap_caseLine (c : Check) (s : Suite) (cs : List Case) :
    (cs.map fun d => (s.runCase {} d).2).flatMap c.caseLine =
      ((cs.filter fun d => ¬ s.Passes d ∨ c.quiet = false).map (Entry.ofCase s)).flatMap
        (Entry.text (paletteOf c.color)) := by
  induction cs with
  | nil => rfl
  | cons d cs ih =>
    rw [List.map_cons, List.flatMap_cons, ih, caseLine_runCase, List.filter_cons]
    by_cases hshown : ¬ s.Passes d ∨ c.quiet = false
    · rw [if_pos hshown, if_pos (decide_eq_true hshown), List.map_cons, List.flatMap_cons]
    · rw [if_neg hshown, if_neg (by simpa using hshown), List.nil_append]

theorem summarize_eq (l : Loaded decode files) :
    summarize (l.cases.map fun d => (l.suite.runCase {} d).2) = (l.passing, l.failing) := by
  have hpass (d : Case) : (l.suite.runCase {} d).2.pass = decide (l.suite.Passes d) := by
    rw [CaseResult.pass, Bool.eq_iff_iff, Option.isNone_iff_eq_none, decide_eq_true_eq]
    rfl
  rw [summarize, List.countP_map, List.countP_map, Loaded.passing, Loaded.failing]
  simp only [Function.comp_def, hpass, decide_not]

/-- What is written about a file are its entries. -/
theorem fileOut_eq (hc : c.cancelled = false) (l : Loaded decode files) :
    c.fileOut l.file (c.results l.suite) =
      (l.entries c.quiet).flatMap (Entry.text (paletteOf c.color)) := by
  rw [fileOut, results_eq hc, flatMap_caseLine, summaryLine, summarize_eq, Loaded.entries,
    List.flatMap_append, List.flatMap_singleton]
  rfl

/-! ### Many files -/

/-- **Files that load** add their entries and their numbers. -/
theorem runFrom_loaded (hc : c.cancelled = false) (ls : List (Loaded decode files)) (rest : List Text)
    (rep : Report) (failed total : Nat) :
    c.runFrom decode files rep failed total (ls.map Loaded.file ++ rest) =
      c.runFrom decode files
        { rep with
          out := rep.out ++ (ls.flatMap (Loaded.entries · c.quiet)).flatMap (Entry.text (paletteOf c.color))
          err := rep.err ++ ls.flatMap fun l => c.fileLog l.file (c.results l.suite) }
        (failed + (ls.map Loaded.failing).sum) (total + (ls.map (·.cases.length)).sum) rest := by
  induction ls generalizing rep failed total with
  | nil => simp
  | cons l ls ih =>
    have hnumbers : (summarize (c.results l.suite)).2 = l.failing := by
      rw [results_eq hc, summarize_eq]
    have hlength : (c.results l.suite).length = l.cases.length := by
      rw [results_eq hc, List.length_map]
    rw [List.map_cons, List.cons_append, runFrom, l.loads]
    dsimp only
    rw [ih, fileOut_eq hc, hnumbers, hlength]
    simp only [List.flatMap_cons, List.flatMap_append, List.map_cons, List.sum_cons, List.append_assoc,
      Nat.add_assoc]

theorem exists_loaded_of_loadSuite {file : Text} {s : Suite} (h : loadSuite decode files file = .ok s) :
    ∃ l : Loaded decode files, l.file = file ∧ l.suite = s := by
  have hpresent : ∃ cs : List Case, s.cases = cs.map some := by
    unfold loadSuite at h
    split at h
    · simp at h
    · next content _ =>
      cases hload : Suite.loadWith decode content with
      | error e => simp [hload, Except.mapError] at h
      | ok u =>
        rw [hload] at h
        exact Suite.exists_cases_of_loadWith (hload.trans (congrArg _ (Except.ok.inj h)))
  obtain ⟨cs, hcs⟩ := hpresent
  exact ⟨⟨file, s, cs, h, hcs⟩, rfl, rfl⟩

/-- Either all files load, or there is a first one that does not. -/
theorem loaded_or_exists_first (decode : Text → Option Suite) (files : Files) (names : List Text) :
    (∃ ls : List (Loaded decode files), names = ls.map Loaded.file) ∨
      ∃ (ls : List (Loaded decode files)) (name : Text) (rest : List Text) (e : Error),
        names = ls.map Loaded.file ++ name :: rest ∧ loadSuite decode files name = .error e := by
  induction names with
  | nil => exact .inl ⟨[], rfl⟩
  | cons name names ih =>
    cases hload : loadSuite decode files name with
    | error e => exact .inr ⟨[], name, names, e, rfl, hload⟩
    | ok s =>
      obtain ⟨l, rfl, -⟩ := exists_loaded_of_loadSuite hload
      rcases ih with ⟨ls, rfl⟩ | ⟨ls, first, rest, e, rfl, he⟩
      · exact .inl ⟨l :: ls, rfl⟩
      · exact .inr ⟨l :: ls, first, rest, e, rfl, he⟩

/-- A run over files that load writes their entries, and its error tells how many of their cases fail. -/
theorem run_loaded (hc : c.cancelled = false) (ls : List (Loaded decode files)) :
    (c.runWith decode files (ls.map Loaded.file)).out =
        (ls.flatMap (Loaded.entries · c.quiet)).flatMap (Entry.text (paletteOf c.color)) ∧
      (c.runWith decode files (ls.map Loaded.file)).error =
        if 0 < (ls.map Loaded.failing).sum then
          some (.casesFailed (ls.map Loaded.failing).sum (ls.map (·.cases.length)).sum)
        else none := by
  have hrun := runFrom_loaded hc ls [] {} 0 0
  rw [List.append_nil, Nat.zero_add, Nat.zero_add] at hrun
  rw [runWith, hrun, runFrom]
  split <;> exact ⟨List.nil_append _, rfl⟩

/-- A run over files that load and then one that does not writes what is written about the former, and
ends with the error of the latter. -/
theorem run_loaded_append (hc : c.cancelled = false) (ls : List (Loaded decode files)) {name : Text}
    (rest : List Text) {e : Error} (he : loadSuite decode files name = .error e) :
    (c.runWith decode files (ls.map Loaded.file ++ name :: rest)).out =
        (c.runWith decode files (ls.map Loaded.file)).out ∧
      (c.runWith decode files (ls.map Loaded.file ++ name :: rest)).error = some e := by
  rw [(run_loaded hc ls).1, runWith, runFrom_loaded hc, runFrom, he]
  exact ⟨List.nil_append _, rfl⟩

/-- A file loads in one way. -/
theorem Loaded.file_injective : Function.Injective (Loaded.file : Loaded decode files → Text) := by
  rintro ⟨file, s, cs, hs, hcs⟩ ⟨-, s', cs', hs', hcs'⟩ rfl
  obtain rfl : s = s' := Except.ok.inj (hs.symm.trans hs')
  obtain rfl : cs = cs' := List.map_injective_iff.2 (fun _ _ => Option.some.inj) (hcs.symm.trans hcs')
  rfl

/-- A file has no failing case exactly if all cases of its suite pass. -/
theorem Loaded.failing_eq_zero_iff (l : Loaded decode files) :
    l.failing = 0 ↔ ∀ d, some d ∈ l.suite.cases → l.suite.Passes d := by
  rw [failing, List.countP_eq_zero, l.present]
  simp

/-- A check ends without an error exactly if all files load and all their cases pass. -/
theorem error_eq_none_iff (hc : c.cancelled = false) (names : List Text) :
    (c.runWith decode files names).error = none ↔ ∀ name ∈ names, ∃ s, loadSuite decode files name = .ok s ∧
      ∀ d, some d ∈ s.cases → s.Passes d := by
  rcases loaded_or_exists_first decode files names with ⟨ls, rfl⟩ | ⟨ls, first, rest, e, rfl, he⟩
  · have hsum : (c.runWith decode files (ls.map Loaded.file)).error = none ↔ ∀ l ∈ ls, l.failing = 0 := by
      rw [(run_loaded hc ls).2, ite_eq_right_iff]
      simp [List.sum_eq_zero_iff_forall_eq_nat]
    rw [hsum, List.forall_mem_map]
    refine forall₂_congr fun l _ => l.failing_eq_zero_iff.trans ⟨fun h => ⟨l.suite, l.loads, h⟩, ?_⟩
    rintro ⟨s, hs, h⟩
    obtain rfl : l.suite = s := Except.ok.inj (l.loads.symm.trans hs)
    exact h
  · rw [(run_loaded_append hc ls rest he).2]
    refine iff_of_false (Option.some_ne_none e) fun h => ?_
    obtain ⟨s, hs, -⟩ := h first (by simp)
    simp [he] at hs

theorem exists_loaded {names : List Text} (h : ∀ name ∈ names, ∃ s, loadSuite decode files name = .ok s) :
    ∃ ls : List (Loaded decode files), ls.map Loaded.file = names := by
  rcases loaded_or_exists_first decode files names with ⟨ls, rfl⟩ | ⟨ls, first, rest, e, rfl, he⟩
  · exact ⟨ls, rfl⟩
  · obtain ⟨s, hs⟩ := h first (by simp)
    simp [he] at hs

/-- **A check reports every case once**, of files in which every run may take its steps.  It ends without
an error exactly if all files load and all their cases pass.  If all files load, their entries are
written, and if cases fail the error tells how many of how many.  If a file is the first that does not
load, the output is that of the files before it, and the error is that of loading it.  How documents are
decoded does not matter. -/
theorem totals_agree_with_entries (c : Check) (decode : Text → Option Suite) (files : Files)
    (names : List Text) (hc : c.cancelled = false) :
    ((c.runWith decode files names).error = none ↔ ∀ name ∈ names, ∃ s, loadSuite decode files name = .ok s ∧
      ∀ d, some d ∈ s.cases → s.Passes d) ∧
    ((∀ name ∈ names, ∃ s, loadSuite decode files name = .ok s) →
      ∃ ls : List (Loaded decode files), ls.map Loaded.file = names ∧
        (c.runWith decode files names).out =
          (ls.flatMap (Loaded.entries · c.quiet)).flatMap (Entry.text (paletteOf c.color)) ∧
        (c.runWith decode files names).error.map Error.message =
          if 0 < (ls.map Loaded.failing).sum then
            some (Text.ofNat (ls.map Loaded.failing).sum ++ utf8 " of " ++
              Text.ofNat (ls.map (·.cases.length)).sum ++ utf8 " cases failed")
          else none) ∧
    (∀ (before after : List Text) (name : Text) (e : Error), names = before ++ name :: after →
      (∀ file ∈ before, ∃ s, loadSuite decode files file = .ok s) → loadSuite decode files name = .error e →
      (c.runWith decode files names).out = (c.runWith decode files before).out ∧
        (c.runWith decode files names).error = some e) := by
  refine ⟨error_eq_none_iff hc names, fun hload => ?_, fun before after name e hnames hload he => ?_⟩
  · obtain ⟨ls, rfl⟩ := exists_loaded hload
    obtain ⟨hout, herror⟩ := run_loaded hc ls
    refine ⟨ls, rfl, hout, ?_⟩
    rw [herror]
    split <;> rfl
  · obtain ⟨ls, rfl⟩ := exists_loaded hload
    rw [hnames]
    exact run_loaded_append hc ls after he

/-- A file of which one case fails, given twice, and then a file that is not there. -/
theorem totals_agree_with_entries_of_file_given_twice :
    let name := utf8 "s"
    let content := utf8 "cases:\n- name: id\n  input: x\n- name: no\n  input: y\n  output: z\n"
    let files : Files := fun file => if file = name then .ok content else .error .notFound
    let c : Check := {}
    c.cancelled = false ∧ (c.run files [name, name]).error ≠ none ∧
      (∃ l : Loaded Suite.read? files, l.passing = 1 ∧ l.failing = 1 ∧
        (c.run files [name, name]).out =
          (l.entries false ++ l.entries false).flatMap (Entry.text (paletteOf false))) ∧
      (c.run files [name, name]).error.map Error.message = some (utf8 "2 of 4 cases failed") ∧
      (c.run files [name, name, utf8 "t"]).out = (c.run files [name, name]).out ∧
      (c.run files [name, name, utf8 "t"]).error = some (.unreadableSuite (utf8 "t") .notFound) := by
  intro name content files c
  let cases : List Case := [{ name := utf8 "id", input := utf8 "x" },
    { name := utf8 "no", input := utf8 "y", output := utf8 "z" }].map Case.parsed
  let s : Suite := { cases := cases.map some }
  have hloads : loadSuite Suite.read? files name = .ok s := by decide +kernel
  let l : Loaded Suite.read? files := ⟨name, s, cases, hloads, rfl⟩
  have hpassing : cases.countP (s.Passes ·) = 1 := by decide +kernel
  have hfailing : cases.countP (¬ s.Passes ·) = 1 := by decide +kernel
  have hall : ∀ file ∈ [name, name], ∃ s, loadSuite Suite.read? files file = .ok s := by
    simpa using ⟨_, hloads⟩
  have hmissing : loadSuite Suite.read? files (utf8 "t") = .error (.unreadableSuite (utf8 "t") .notFound) := by
    decide +kernel
  obtain ⟨hnone, hentries, -⟩ := totals_agree_with_entries c Suite.read? files [name, name] rfl
  obtain ⟨-, -, hfirst⟩ := totals_agree_with_entries c Suite.read? files [name, name, utf8 "t"] rfl
  obtain ⟨ls, hls, hout, hmessage⟩ := hentries hall
  obtain rfl : ls = [l, l] := List.map_injective_iff.2 Loaded.file_injective hls
  have hsome : (c.run files [name, name]).error ≠ none := by
    intro h
    obtain ⟨s', hs', hpass⟩ := hnone.1 h name (by simp)
    obtain rfl : s = s' := Except.ok.inj (hloads.symm.trans hs')
    exact absurd (hfailing.symm.trans (l.failing_eq_zero_iff.2 hpass)) Nat.one_ne_zero
  refine ⟨rfl, hsome, ⟨l, hpassing, hfailing, ?_⟩, ?_, hfirst [name, name] [] _ _ rfl hall hmissing⟩
  · simpa [run] using hout
  · have hfailures : ([l, l].map Loaded.failing).sum = 2 := congrArg (fun n => n + (n + 0)) hfailing
    have hcases : ([l, l].map (·.cases.length)).sum = 4 := rfl
    refine hmessage.trans ?_
    rw [hfailures, hcases]
    decide +kernel

end Command.Check

end CallByValue
