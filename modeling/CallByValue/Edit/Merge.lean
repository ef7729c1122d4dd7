import CallByValue.Edit.Basic

/-!
# Merging edits

Neighbouring edits of one kind become one, what a deletion and an insertion next to each other have
in common at their ends moves into the kept text around them, and an edit between two kept pieces is
shifted over one of them if that makes the piece disappear.
-/

namespace CallByValue

namespace Edit

/-- The characters of the edits of one kind in a run. -/
def gathered (k : Kind) (run : List Edit) : List Char :=
  run.flatMap fun e => if e.kind = k then characters e.text else []

/-- Whether a run has an edit of the given kind. -/
def hasKind (k : Kind) (run : List Edit) : Bool := run.any (·.kind = k)

/-- The edit of one kind that replaces those of a run. -/
def joined (k : Kind) (run : List Edit) (cs : List Char) : List Edit :=
  if hasKind k run then [⟨k, spell cs⟩] else []

/-- Adds characters to a kept piece at the end of a script, which is given in reverse. -/
def keepMore (cs : List Char) : (done : List Edit) → List Edit
  | ⟨.keep, t⟩ :: done => ⟨.keep, t ++ spell cs⟩ :: done
  | done => keep cs :: done

/-- Puts a run of deletions and insertions and the kept piece after it at the end of a script, which
is given in reverse.  A run of several edits becomes at most one deletion and one insertion. -/
def closeRun (done run : List Edit) (t : Text) : List Edit :=
  match run with
  | [] =>
    match done with
    | ⟨.keep, s⟩ :: done => ⟨.keep, s ++ t⟩ :: done
    | done => ⟨.keep, t⟩ :: done
  | [e] => ⟨.keep, t⟩ :: e :: done
  | run =>
    let deleted := gathered .delete run
    let inserted := gathered .insert run
    let both := hasKind .delete run && hasKind .insert run
    let n := if both then prefixLength inserted deleted else 0
    let done := if n = 0 then done else keepMore (inserted.take n) done
    let deleted := deleted.drop n
    let inserted := inserted.drop n
    let m := if both then suffixLength inserted deleted else 0
    let t := spell (takeLast m inserted) ++ t
    ⟨.keep, t⟩ :: (joined .insert run (dropLast m inserted)).reverse ++
      (joined .delete run (dropLast m deleted)).reverse ++ done

/-- Joins the edits of a script run by run; `done` is the part already joined, in reverse, and `run`
the deletions and insertions since the last kept piece. -/
def joinRuns (done run : List Edit) : List Edit → List Edit
  | [] => done.reverse ++ run
  | ⟨.keep, t⟩ :: es => joinRuns (closeRun done run t) [] es
  | e :: es => joinRuns done (run ++ [e]) es

/-- The script without an empty edit at its end. -/
def trimEnd (es : List Edit) : List Edit :=
  match es.getLast? with
  | some e => if e.text = [] then es.dropLast else es
  | none => es

/-- Shifts edits between kept pieces over them; says whether any was shifted.  `done` is the part
before the edit in question, in reverse. -/
def shiftEdits (done : List Edit) (changed : Bool) : List Edit → List Edit × Bool
  | e :: next :: es =>
    match done with
    | [] => shiftEdits [e] changed (next :: es)
    | prev :: before =>
      if prev.kind = .keep ∧ next.kind = .keep then
        if prev.text.isSuffixOf e.text then
          let e' := ⟨e.kind, prev.text ++ dropLast prev.text.length e.text⟩
          shiftEdits (⟨next.kind, prev.text ++ next.text⟩ :: e' :: before) true es
        else if next.text.isPrefixOf e.text then
          let e' := ⟨e.kind, e.text.drop next.text.length ++ next.text⟩
          shiftEdits (e' :: ⟨prev.kind, prev.text ++ next.text⟩ :: before) true es
        else shiftEdits (e :: done) changed (next :: es)
      else shiftEdits (e :: done) changed (next :: es)
  | es => (done.reverse ++ es, changed)

/-- Joins and shifts edits until nothing changes, at most `fuel` times. -/
def mergeWith : (fuel : Nat) → List Edit → List Edit
  | 0, es => es
  | fuel + 1, es =>
    match shiftEdits [] false (trimEnd (joinRuns [] [] (es ++ [⟨.keep, []⟩]))) with
    | (es, true) => mergeWith fuel es
    | (es, false) => es

/-- Joins and shifts edits until nothing changes.  Every shift removes a kept piece, so there are no
more rounds than edits and one. -/
def merge (es : List Edit) : List Edit := mergeWith (es.length + 1) es

end Edit

end CallByValue
