import RemoteEval.Script.Grammar
import RemoteEval.Script.Nesting

/-!
# How deep programs are

An expression is as deep as what a way from its root to a leaf passes through at most : arrays,
maps, calls on the way to an argument, indices on the way to what stands between the brackets, and
prefix operators (`Expr.depth`). Where an expression stands does not make it deeper
(`Expr.depth_unplaced`).

`Way` finds out from the words alone, without a parser. It keeps the operators in front of a bracket
for as long as the bracket is open, which `Nesting` does not.
-/

namespace RemoteEval.Script

mutual

/-- What a way from the root of an expression to a leaf passes through at most, where a prefix
operator counts `sign` and everything else that counts one. -/
def Expr.depth (sign : Nat) : Expr → Nat
  | .array items => Expr.depthItems sign items + 1
  | .map entries => Expr.depthEntries sign entries + 1
  | .index target i _ => max (target.depth sign) (i.depth sign + 1)
  | .call _ [] _ => 0
  | .call _ (arg :: args) _ => max (arg.depth sign) (Expr.depthItems sign args) + 1
  | .unary _ operand _ => operand.depth sign + sign
  | .binary _ left right _ => max (left.depth sign) (right.depth sign)
  | _ => 0

/-- The depth of the deepest of some expressions. -/
def Expr.depthItems (sign : Nat) : List Expr → Nat
  | [] => 0
  | e :: rest => max (e.depth sign) (Expr.depthItems sign rest)

/-- The depth of the deepest of some keys and values. -/
def Expr.depthEntries (sign : Nat) : List (Expr × Expr) → Nat
  | [] => 0
  | (k, v) :: rest => max (max (k.depth sign) (v.depth sign)) (Expr.depthEntries sign rest)

end

/-- The depth of the expression of a statement. -/
def Statement.depth (sign : Nat) : Statement → Nat
  | .assign _ value => value.depth sign
  | .bare e => e.depth sign

mutual

theorem Expr.depth_unplaced (sign : Nat) (e : Expr) : e.unplaced.depth sign = e.depth sign := by
  match e with
  | .array items => simp [Expr.unplaced, Expr.depth, Expr.depthItems_unplaced sign items]
  | .map entries => simp [Expr.unplaced, Expr.depth, Expr.depthEntries_unplaced sign entries]
  | .index target i _ =>
    simp [Expr.unplaced, Expr.depth, Expr.depth_unplaced sign target, Expr.depth_unplaced sign i]
  | .call _ [] _ => rfl
  | .call _ (arg :: args) _ =>
    simp [Expr.unplaced, Expr.unplacedItems, Expr.depth, Expr.depth_unplaced sign arg,
      Expr.depthItems_unplaced sign args]
  | .unary _ operand _ => simp [Expr.unplaced, Expr.depth, Expr.depth_unplaced sign operand]
  | .binary _ left right _ =>
    simp [Expr.unplaced, Expr.depth, Expr.depth_unplaced sign left, Expr.depth_unplaced sign right]
  | .null | .bool _ | .int _ | .float _ | .str _ | .char _ | .var _ => rfl

theorem Expr.depthItems_unplaced (sign : Nat) (items : List Expr) :
    Expr.depthItems sign (Expr.unplacedItems items) = Expr.depthItems sign items := by
  match items with
  | [] => rfl
  | e :: rest =>
    simp [Expr.unplacedItems, Expr.depthItems, Expr.depth_unplaced sign e,
      Expr.depthItems_unplaced sign rest]

theorem Expr.depthEntries_unplaced (sign : Nat) (entries : List (Expr × Expr)) :
    Expr.depthEntries sign (Expr.unplacedEntries entries) = Expr.depthEntries sign entries := by
  match entries with
  | [] => rfl
  | (k, v) :: rest =>
    simp [Expr.unplacedEntries, Expr.depthEntries, Expr.depth_unplaced sign k,
      Expr.depth_unplaced sign v, Expr.depthEntries_unplaced sign rest]

end

theorem Statement.depth_unplaced (sign : Nat) (s : Statement) :
    s.unplaced.depth sign = s.depth sign := by
  cases s <;> exact Expr.depth_unplaced sign _

/-- What the way from the root of a statement to the next word passes through. -/
structure Way where
  /-- What it passes through up to the innermost bracket that is open. -/
  base : Nat
  /-- Operators behind that bracket whose operand is not complete. -/
  signs : Nat
  /-- `base` and `signs` outside of each bracket that is open, the innermost first. -/
  outer : List (Nat × Nat)
  /-- Whether an operand is to follow. -/
  wanted : Bool
deriving DecidableEq, Repr

namespace Way

/-- In front of a statement. -/
def start : Way := ⟨0, 0, [], true⟩

/-- Everything the way passes through. -/
def here (w : Way) : Nat := w.base + w.signs

/-- Into a bracket, for which `toll` is counted. -/
def enter (w : Way) (toll : Nat) : Way := ⟨w.here + toll, 0, (w.base, w.signs) :: w.outer, true⟩

/-- Out of the innermost bracket, with which an operand ends. -/
def leave (w : Way) : Way :=
  match w.outer with
  | [] => w
  | (base, signs) :: outer => ⟨base, signs, outer, false⟩

/-- The way to the word behind one more word. -/
def step (w : Way) : Token → Way
  | .mark .openBracket | .mark .openBrace => w.enter 1
  -- Behind a name the parenthesis is that of a call.
  | .mark .openParen => w.enter (if w.wanted then 0 else 1)
  | .mark .closeParen | .mark .closeBracket | .mark .closeBrace => w.leave
  | .mark .bang => { w with signs := w.signs + 1 }
  | .mark .minus =>
    if w.wanted then { w with signs := w.signs + 1 } else { w with signs := 0, wanted := true }
  | .mark _ => { w with signs := 0, wanted := true }
  | _ => { w with wanted := false }

/-- What the way to a word that begins an operand passes through, the operand included. -/
def met (w : Way) : Token → Nat
  | .mark .openBracket | .mark .openBrace => w.here + 1
  | .mark _ => 0
  | _ => w.here

/-- Whether no way passes through more than a limit. -/
def within (limit : Nat) (w : Way) : List Token → Bool
  | [] => true
  | t :: ts => w.met t ≤ limit && (w.step t).within limit ts

end Way

end RemoteEval.Script
