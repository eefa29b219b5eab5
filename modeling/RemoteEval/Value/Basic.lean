/-!
# Values

What an evaluation produces : scalars, texts, arrays, maps, sequences that are only walked on
demand, and objects known by their text alone. A sequence has an identity, so that a copy of
it is told from another sequence with the same items.
-/

namespace RemoteEval

/-- Where the items of a sequence come from. -/
inductive Source (α : Type) where
  /-- The integers from `start` up to but not including `stop`. -/
  | range (start stop : Int64)
  /-- The items of a list. -/
  | items (values : List α)
  /-- A sequence that cannot be walked and shows as `text`. -/
  | refused (text : String)
  /-- A sequence whose every item is the sequence itself. -/
  | echo (times : Nat)

/-- A value. -/
inductive Value where
  /-- The absence of a value. -/
  | null
  /-- A truth value. -/
  | bool (b : Bool)
  /-- A whole number. -/
  | int (i : Int64)
  /-- A floating-point number. -/
  | float (x : Float)
  /-- A text. -/
  | str (s : String)
  /-- One character. -/
  | char (c : Char)
  /-- Values in order. -/
  | array (items : List Value)
  /-- Keys with their values, in the order of insertion. -/
  | map (entries : List (Value × Value))
  /-- A sequence with its identity. -/
  | seq (identity : Nat) (source : Source Value)
  /-- An object that only shows its text. -/
  | object (text : String)

instance : Inhabited Value := ⟨.null⟩

namespace Source

/-- How many integers a range holds. -/
def rangeLength (start stop : Int64) : Nat :=
  (stop.toInt - start.toInt).toNat

/-- The text a sequence shows for itself. -/
def description {α : Type} : Source α → String
  | .range start stop => "range(" ++ toString start.toInt ++ ", " ++ toString stop.toInt ++ ")"
  | .items _ => "list"
  | .refused text => text
  | .echo _ => "loop"

end Source

namespace Value

/-- The name of a value's kind. -/
def kind : Value → String
  | null => "null"
  | bool _ => "bool"
  | int _ => "int"
  | float _ => "float"
  | str _ => "string"
  | char _ => "char"
  | array _ => "array"
  | map _ => "map"
  | seq .. => "sequence"
  | object _ => "object"

/-- Whether a value counts as true : null, zero and what is empty do not. -/
def isTruthy : Value → Bool
  | null => false
  | bool b => b
  | int i => i != 0
  | float x => x != 0
  | str s => s != ""
  | array items => !items.isEmpty
  | map entries => !entries.isEmpty
  | char _ | seq .. | object _ => true

end Value

end RemoteEval
