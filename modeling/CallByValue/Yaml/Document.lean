import CallByValue.Yaml.Item
import CallByValue.Yaml.Node
import CallByValue.Yaml.Scanner

/-!
# Documents

The structure of block style follows from columns: a map goes on with keys in the column of its first
one, a list with dashes in the column of its first one, and a value stands to the right of its key.  In
flow style brackets, braces and commas make the structure.

Every function reads from the front of the items and gives what is left; `flow` says whether they stand
in brackets or braces.
-/

namespace CallByValue

namespace Yaml

/-- A key of a map with its value. -/
structure Entry where
  /-- The key. -/
  key : Token
  /-- The value. -/
  value : Node

/-- What an entry of a map says. -/
def Entry.toPair? (e : Entry) : Option (Scalar × Node) := e.key.scalar?.map (·, e.value)

/-- The map of some entries; none if the text of a key occurs twice. -/
def Node.ofEntries? (es : List Entry) : Option Node :=
  if (es.map (·.key.text)).Nodup then (es.mapM Entry.toPair?).map .map else none

/-- White space at the start of a key. -/
def isKeyBlank (c : Char) : Bool := isSpace c || isBreak c

/-- Whether a key stands on one line with its colon. -/
def isKeyLine (flow : Bool) (k colon : Token) : Bool :=
  let source := k.source.dropWhile isKeyBlank
  let trimmed := (source.reverse.dropWhile isKeyBlank).reverse
  let isText := !k.isQuoted && (k.scalar?.any Scalar.isText)
  let shown := if flow && !isText then source else trimmed
  !shown.any isBreak && k.mark.line = colon.mark.line && k.kind != .scalar .block k.text

/-- Whether an item may stand in the place of a key. -/
def Item.isMapPart (i : Item) : Bool := i.isKey || i.isKind .mapStart || i.isKind .mapEnd

/-- Whether an entry of a flow map may end before an item. -/
def endsEntry : List Item → Bool
  | i :: _ => i.isKind .mapEnd || i.isKind .comma
  | [] => false

mutual

/-- A value. -/
def value? : (fuel : Nat) → (flow : Bool) → List Item → Option (Node × List Item)
  | 0, _, _ => none
  | fuel + 1, flow, items =>
    match items with
    | [] => none
    | .token t :: rest =>
      match t.kind with
      | .mapStart => flowMap? fuel true [] rest
      | .listStart => flowList? fuel true [] rest
      | .dash => do
        let (ns, rest) ← blockList? fuel flow t.mark.column items
        return (.list ns, rest)
      | _ => t.scalar?.map fun s => (.scalar s, rest)
    | items => do
      let (es, rest) ← blockMap? fuel flow items
      return (← Node.ofEntries? es, rest)

/-- The entries of a block map from its first key on. -/
def blockMap? : (fuel : Nat) → (flow : Bool) → List Item → Option (List Entry × List Item)
  | 0, _, _ => none
  | fuel + 1, flow, items =>
    match items with
    | .pair k colon v :: rest => do
      if !isKeyLine flow k colon then none
      let ends := rest.head?.all fun i =>
        i.column ≤ k.mark.column || (flow && (i.isKind .comma || i.isKind .listEnd))
      if !ends then none
      moreEntries? fuel flow k.mark.column [⟨k, .scalar (← v.scalar?)⟩] rest
    | .key k colon :: rest => do
      if !isKeyLine flow k colon then none
      if rest.head?.any fun i => i.line = k.mark.line && i.isKind .dash then none
      let (n, rest) ← keyValue? fuel flow k rest
      moreEntries? fuel flow k.mark.column [⟨k, n⟩] rest
    | _ => none

/-- Further entries of a block map with keys in the given column. -/
def moreEntries? : (fuel : Nat) → (flow : Bool) → (column : Nat) → List Entry → List Item →
    Option (List Entry × List Item)
  | 0, _, _, _, _ => none
  | fuel + 1, flow, column, es, items =>
    match items with
    | [] => some (es, items)
    | i :: rest =>
      if i.column ≠ column || (flow && i.isKind .listEnd) then some (es, items)
      else if i.isKind .mapEnd then some (es, rest)
      else do
        let (es', rest) ← blockMap? fuel flow items
        moreEntries? fuel flow column (es ++ es') rest

/-- The value after a key; nothing if the next item belongs to the map or to something around it. -/
def keyValue? : (fuel : Nat) → (flow : Bool) → Token → List Item → Option (Node × List Item)
  | 0, _, _, _ => none
  | fuel + 1, flow, k, items =>
    match items with
    | [] => some (.null, items)
    | i :: _ =>
      if i.column ≠ k.mark.column && i.line = k.mark.line && i.isKey then none
      else if i.column < k.mark.column || (i.column = k.mark.column && i.isMapPart) then
        some (.null, items)
      else value? fuel flow items

/-- The items of a block list with dashes in the given column. -/
def blockList? : (fuel : Nat) → (flow : Bool) → (column : Nat) → List Item →
    Option (List Node × List Item)
  | 0, _, _, _ => none
  | fuel + 1, flow, column, items =>
    match items with
    | [] => some ([], items)
    | i :: rest =>
      if i.isKind .dash && i.column = column then do
        let (n, rest) ← itemValue? fuel flow column rest
        let (ns, rest) ← blockList? fuel flow column rest
        return (n :: ns, rest)
      else some ([], items)

/-- The value after a dash; nothing if the next item belongs to the list or to something around it. -/
def itemValue? : (fuel : Nat) → (flow : Bool) → (column : Nat) → List Item →
    Option (Node × List Item)
  | 0, _, _, _ => none
  | fuel + 1, flow, column, items =>
    match items with
    | [] => some (.null, items)
    | i :: _ =>
      if i.column < column || (i.column = column && i.isKind .dash) then some (.null, items)
      else value? fuel flow items

/-- The rest of a flow list, after some values; `start` says whether it has just begun. -/
def flowList? : (fuel : Nat) → (start : Bool) → List Node → List Item → Option (Node × List Item)
  | 0, _, _, _ => none
  | fuel + 1, start, ns, items =>
    match items with
    | [] => none
    | i :: rest =>
      if i.isKind .listEnd then some (.list ns, rest)
      else if i.isKind .comma = start then none
      else
        let items := if start then items else rest
        match items with
        | [] => none
        | i :: rest =>
          if i.isKind .listEnd then some (.list ns, rest)
          else do
            let (n, rest) ← value? fuel true items
            flowList? fuel false (ns ++ [n]) rest

/-- The rest of a flow map, after some entries; `start` says whether it has just begun. -/
def flowMap? : (fuel : Nat) → (start : Bool) → List (Entry × Bool) → List Item →
    Option (Node × List Item)
  | 0, _, _, _ => none
  | fuel + 1, start, es, items =>
    match items with
    | [] => none
    | i :: rest =>
      if i.isKind .mapEnd then closed es rest
      else if !start && !i.isKind .comma then none
      else
        let items := if i.isKind .comma then rest else items
        match items with
        | [] => none
        | .pair k colon v :: rest => do
          if !isKeyLine true k colon then none
          flowMap? fuel false (es ++ [(⟨k, .scalar (← v.scalar?)⟩, true)]) rest
        | .key k colon :: rest => do
          if !isKeyLine true k colon then none
          if endsEntry rest then flowMap? fuel false (es ++ [(⟨k, .null⟩, true)]) rest
          else
            let (n, rest) ← value? fuel true rest
            flowMap? fuel false (es ++ [(⟨k, n⟩, true)]) rest
        | .token t :: rest =>
          if t.kind = .mapEnd then closed es rest
          else if endsEntry rest && t.isScalar then
            flowMap? fuel false (es ++ [(⟨t, .null⟩, false)]) rest
          else none
where
  /-- The map of entries; of a key without a colon there may be several. -/
  closed (es : List (Entry × Bool)) (rest : List Item) : Option (Node × List Item) := do
    if !((es.filter (·.2)).map (·.1.key.text)).Nodup then none
    let entries ← es.mapM fun e => e.1.toPair?
    return (.map entries, rest)

end

/-- The node of a document; none if something is left. -/
def Node.ofItems? (items : List Item) : Option Node :=
  match value? (8 * items.length + 8) false items with
  | some (n, []) => some n
  | _ => none

/-- The documents in a text that are not empty; none if one of them is malformed. -/
def Node.readAll? (t : Text) : Option (List Node) := do
  let items := groupPairs (← groupKeys? (← tokens? t.chars))
  let ds ← documents? (items.length + 1) items
  (ds.filter (!·.isEmpty)).mapM Node.ofItems?

end Yaml

end CallByValue
