set_option autoImplicit false

namespace RecordExpr

/-- Lines and columns count from one, columns in characters. -/
structure Position where
  line : Nat := 1
  column : Nat := 1
deriving DecidableEq, Repr, Inhabited

namespace Position

/-- Earlier in the text, or the same place. -/
def le (p q : Position) : Bool :=
  decide (p.line < q.line) || (p.line == q.line && decide (p.column ≤ q.column))

def min (p q : Position) : Position := if p.le q then p else q

def max (p q : Position) : Position := if p.le q then q else p

/-- The place after the character `c` that stands here. -/
def next (p : Position) (c : Char) : Position :=
  if c = '\n' then ⟨p.line + 1, 1⟩ else ⟨p.line, p.column + 1⟩

/-- The place after these characters. -/
def advance (p : Position) (cs : List Char) : Position := cs.foldl next p

/-- Bytes from `here`, where `cs` begins, to the first character that stands on the line of `target`
or a later one and not left of its column; to the end of `cs` if there is none. -/
def bytesTo (target : Position) : Position → List Char → Nat
  | _, [] => 0
  | here, c :: rest =>
    if target.line ≤ here.line ∧ target.column ≤ here.column then 0
    else c.utf8Size + bytesTo target (here.next c) rest

/-- The byte offset of this place in a text. -/
def offset (target : Position) (text : List Char) : Nat := target.bytesTo ⟨1, 1⟩ text

end Position

/-- From a place up to another one, which is not part of it. -/
structure Range where
  start : Position := ⟨1, 1⟩
  stop : Position := ⟨1, 1⟩
deriving DecidableEq, Repr, Inhabited

namespace Range

/-- The smallest range that covers both. -/
def merge (r s : Range) : Range := ⟨r.start.min s.start, r.stop.max s.stop⟩

/-- Byte offset and byte length in a text, never shorter than one byte. -/
def span (r : Range) (text : List Char) : Nat × Nat :=
  let start := r.start.offset text
  (start, Nat.max (r.stop.offset text - start) 1)

end Range

end RecordExpr
