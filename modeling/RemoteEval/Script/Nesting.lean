import RemoteEval.Script.Position
import RemoteEval.Script.Token

/-!
# The nesting limit

Open brackets and a run of operators that may stand in front of an operand are counted
token by token. `firstTooDeep?` finds the first token at which they exceed `nestingLimit`.
-/

namespace RemoteEval.Script

/-- How many brackets and prefix operators may be open at once. -/
def nestingLimit : Nat := 64

/-- What is open after some tokens. -/
structure Nesting where
  /-- Brackets that are open. -/
  depth : Nat
  /-- Tokens just before that may be prefix operators. -/
  run : Nat
deriving DecidableEq, Repr

namespace Nesting

/-- Nothing is open. -/
def none : Nesting := ⟨0, 0⟩

/-- What is open after one more token. -/
def step (n : Nesting) : Token → Nesting
  | .mark .openParen | .mark .openBracket | .mark .openBrace => ⟨n.depth + 1, 0⟩
  | .mark .closeParen | .mark .closeBracket | .mark .closeBrace => ⟨n.depth - 1, 0⟩
  | .mark .minus | .mark .bang => ⟨n.depth, n.run + 1⟩
  | _ => ⟨n.depth, 0⟩

/-- Everything that counts against the limit. -/
def total (n : Nesting) : Nat := n.depth + n.run

end Nesting

/-- The first token at which more than the limit is open. -/
def firstTooDeepFrom? (n : Nesting) : List (Placed Token) → Option (Placed Token)
  | [] => none
  | t :: rest =>
    if nestingLimit < (n.step t.item).total then some t else firstTooDeepFrom? (n.step t.item) rest

/-- The first token of a source at which more than the limit is open. -/
def firstTooDeep? (tokens : List (Placed Token)) : Option (Placed Token) :=
  firstTooDeepFrom? .none tokens

end RemoteEval.Script
