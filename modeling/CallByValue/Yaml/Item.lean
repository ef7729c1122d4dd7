import CallByValue.Yaml.Token

/-!
# Keys, pairs and documents

Before the structure of a document is read, its tokens are grouped: a scalar and the colon after it
are a key, and a key with a scalar on the same line is a pair.  Lines of three dashes or points divide
a text into documents.
-/

namespace CallByValue

namespace Yaml

/-- A group of tokens. -/
inductive Item where
  /-- A single token. -/
  | token (t : Token)
  /-- A key and its colon. -/
  | key (k colon : Token)
  /-- A key, its colon, and a scalar on the same line. -/
  | pair (k colon v : Token)
  deriving DecidableEq, Repr

namespace Item

/-- The first token of an item. -/
def first : Item → Token
  | token t => t
  | key k _ => k
  | pair k _ _ => k

/-- The line where an item starts. -/
def line (i : Item) : Nat := i.first.mark.line

/-- The column where an item starts. -/
def column (i : Item) : Nat := i.first.mark.column

/-- Whether an item is a single token of the given kind. -/
def isKind (kind : TokenKind) : Item → Bool
  | token t => t.kind == kind
  | _ => false

/-- Whether an item is a key, with or without its value. -/
def isKey : Item → Bool
  | token _ => false
  | _ => true

/-- Whether an item is a scalar. -/
def isScalar : Item → Bool
  | token t => t.isScalar
  | _ => false

end Item

/-- Groups keys with their colons; none if there is a colon after something else than a scalar. -/
def groupKeys? : List Token → Option (List Item)
  | [] => some []
  | [t] => if t.kind = .colon then none else some [.token t]
  | t :: c :: ts =>
    if t.kind = .colon then none
    else if c.kind = .colon then
      if t.isScalar then (groupKeys? ts).map (.key t c :: ·) else none
    else (groupKeys? (c :: ts)).map (.token t :: ·)

/-- Groups keys with scalars on the same line. -/
def groupPairs : List Item → List Item
  | .key k c :: .token t :: is =>
    if t.isScalar && k.mark.line = t.mark.line then .pair k c t :: groupPairs is
    else .key k c :: .token t :: groupPairs is
  | i :: is => i :: groupPairs is
  | [] => []

/-- Whether an item starts or ends a document. -/
def Item.isBoundary (i : Item) : Bool := i.isKind .documentStart || i.isKind .documentEnd

/-- The documents that some items consist of; none if a key or a dash stands on the line that starts a
document, or a scalar after the line that ends one.  A line that starts an empty document before another
one ends the text. -/
def documents? : (fuel : Nat) → List Item → Option (List (List Item))
  | 0, _ => none
  | fuel + 1, is =>
    let front := is.takeWhile fun i => !i.isBoundary
    match is.dropWhile fun i => !i.isBoundary with
    | [] => some [front]
    | b :: rest =>
      match rest with
      | [] => some [front]
      | i :: _ =>
        if b.isKind .documentEnd then
          if i.isScalar then none else (documents? fuel rest).map (front :: ·)
        else if i.isKind .documentStart then some [front]
        else if b.line = i.line && (i.isKey || i.isKind .dash) then none
        else (documents? fuel rest).map (front :: ·)

end Yaml

end CallByValue
