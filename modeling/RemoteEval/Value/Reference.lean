import RemoteEval.Value.Render

/-!
# The reference rendering

How a value would be written if nothing were cut and nobody could stop it (`Value.Renders`), one
rule for each kind of value. A sequence that contains itself has no such text.

The items of an array or a sequence and the keys and values of a map are one level below it
(`Value.contents`). `Value.cutTo` puts an ellipsis in the place of every value on a level, and
`Value.valuesTo` lists the values down to it, with those on it.
-/

namespace RemoteEval

/-- What a sequence with an identity yields, if it can be walked at all. -/
def Source.yielded? (identity : Nat) : Source Value → Option (List Value)
  | .range start stop =>
    some ((List.range (rangeLength start stop)).map fun i : Nat =>
      .int (Int64.ofInt (start.toInt + i)))
  | .items values => some values
  | .refused _ => none
  | .echo times => some (List.replicate times (.seq identity (.echo times)))

/-- Texts in braces, separated by commas. -/
def Text.braced (texts : List String) : String :=
  "\x7b " ++ ", ".intercalate texts ++ " \x7d"

namespace Value

mutual

/-- A value has a text. -/
inductive Renders : Value → String → Prop
  | null : Renders null "null"
  | true : Renders (bool .true) "true"
  | false : Renders (bool .false) "false"
  | int (i : Int64) : Renders (int i) (toString i.toInt)
  | float (x : Float) : Renders (float x) (Number.Layout.plain.text x)
  | str (s : String) : Renders (str s) ("\"" ++ s ++ "\"")
  | char (c : Char) : Renders (char c) (String.singleton c)
  | array {items : List Value} {texts : List String} (h : RendersItems items texts) :
      Renders (array items) (Text.braced texts)
  | map {entries : List (Value × Value)} {texts : List String} (h : RendersEntries entries texts) :
      Renders (map entries) ("\x7b" ++ ", ".intercalate texts ++ "\x7d")
  /-- A sequence that can be walked shows as the array of what it yields. -/
  | walked {identity : Nat} {source : Source Value} {items : List Value} {s : String}
      (hitems : source.yielded? identity = some items) (h : Renders (array items) s) :
      Renders (seq identity source) s
  | refused {identity : Nat} {source : Source Value} (h : source.yielded? identity = none) :
      Renders (seq identity source) source.description
  | object (text : String) : Renders (object text) text

/-- Values have texts, each its own. -/
inductive RendersItems : List Value → List String → Prop
  | nil : RendersItems [] []
  | cons {v : Value} {s : String} {items : List Value} {texts : List String} (hv : Renders v s)
      (hitems : RendersItems items texts) : RendersItems (v :: items) (s :: texts)

/-- Pairs have texts, each that of its key and its value. -/
inductive RendersEntries : List (Value × Value) → List String → Prop
  | nil : RendersEntries [] []
  | cons {k v : Value} {s t : String} {entries : List (Value × Value)} {texts : List String}
      (hk : Renders k s) (hv : Renders v t) (hentries : RendersEntries entries texts) :
      RendersEntries ((k, v) :: entries) (Text.braced [s, t] :: texts)

end

/-- A value with an ellipsis in the place of every value that is `levels` levels below it. -/
def cutTo : (levels : Nat) → Value → Value
  | 0, _ => object "..."
  | levels + 1, array items => array (items.map (cutTo levels))
  | levels + 1, map entries => map (entries.map fun e => (cutTo levels e.1, cutTo levels e.2))
  | levels + 1, seq identity source =>
    match source.yielded? identity with
    | some items => seq identity (.items (items.map (cutTo levels)))
    | none => seq identity source
  | _ + 1, v => v

/-- The values that are one level below a value, in order. -/
def contents : Value → List Value
  | array items => items
  | map entries => entries.flatMap fun e => [e.1, e.2]
  | seq identity source => (source.yielded? identity).getD []
  | _ => []

/-- A value and what it holds down to `levels` levels below it, a container before its contents. -/
def valuesTo : (levels : Nat) → Value → List Value
  | 0, v => [v]
  | levels + 1, v => v :: v.contents.flatMap (valuesTo levels)

end Value

end RemoteEval
