import RemoteEval.Value.Basic
import RemoteEval.Number.Notation
import RemoteEval.Text.Quoted

/-!
# Inspected values

`Value.inspect` shows a value with the name of its kind, its texts quoted and its numbers in
the exact layout.
-/

namespace RemoteEval.Value

/-- A kind with what it holds in parentheses. -/
def labelled (label content : String) : String :=
  label ++ "(" ++ content ++ ")"

/-- Texts in brackets, separated by commas. -/
def bracketed (contents : List String) : String :=
  "[" ++ ", ".intercalate contents ++ "]"

mutual

/-- The text of a value for inspection. -/
def inspect : Value → String
  | null => "Null"
  | bool b => labelled "Bool" (if b then "true" else "false")
  | int i => labelled "Int" (toString i.toInt)
  | float x => labelled "Float" (Number.Layout.exact.text x)
  | str s => labelled "Str" (Text.quoted s)
  | char c => labelled "Char" (Text.quotedChar c)
  | array items => labelled "Array" (bracketed (inspectItems items))
  | map entries =>
    labelled "Map" ("ValueMap \x7b entries: " ++ bracketed (inspectEntries entries) ++ " \x7d")
  | seq _ source => labelled "Seq" (Text.quoted source.description)
  | object text => labelled "Opaque" (Text.quoted text)

/-- The text of each value. -/
def inspectItems : List Value → List String
  | [] => []
  | v :: rest => v.inspect :: inspectItems rest

/-- The text of each pair. -/
def inspectEntries : List (Value × Value) → List String
  | [] => []
  | (k, v) :: rest => ("(" ++ k.inspect ++ ", " ++ v.inspect ++ ")") :: inspectEntries rest

end

end RemoteEval.Value
