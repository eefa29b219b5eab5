/-!
# Positions in a source

Places in a source are counted in octets from its start. `Position.locate` turns such an offset
into the line and the column a reader counts, and `Placed` is something that stands between
two offsets.
-/

namespace RemoteEval.Script

/-- How many octets characters take. -/
def width (cs : List Char) : Nat :=
  cs.foldr (fun c n => c.utf8Size + n) 0

/-- Something found in a source between the offsets `start` and `stop`. -/
structure Placed (α : Type) where
  /-- What was found. -/
  item : α
  /-- Where it starts. -/
  start : Nat
  /-- Where it ends. -/
  stop : Nat
deriving DecidableEq, Repr

/-- A line and a column, both counted from one. -/
structure Position where
  /-- One more than the newlines before the place. -/
  line : Nat
  /-- One more than the characters before it on its line. -/
  column : Nat
deriving DecidableEq, Repr

namespace Position

/-- The first position. -/
def origin : Position := ⟨1, 1⟩

/-- The position after a character. -/
def advance (p : Position) (c : Char) : Position :=
  if c = '\n' then ⟨p.line + 1, 1⟩ else ⟨p.line, p.column + 1⟩

/-- The position `offset` octets after `p`. -/
def locateFrom (p : Position) : List Char → (offset : Nat) → Position
  | [], _ => p
  | c :: rest, offset =>
    if c.utf8Size ≤ offset then locateFrom (p.advance c) rest (offset - c.utf8Size) else p

/-- The position of an offset in a source. -/
def locate (source : List Char) (offset : Nat) : Position :=
  locateFrom origin source offset

/-- A position as it stands before a message. -/
def text (p : Position) : String :=
  "(" ++ toString p.line ++ "," ++ toString p.column ++ ")"

end Position

end RemoteEval.Script
