import RemoteEval.Value.Basic
import RemoteEval.Number.Notation

/-!
# Rendering

`Value.render` writes a value as text : arrays and sequences in braces, maps as pairs in
braces, texts between quotes as they are. Containers deeper than `depthLimit` show as an
ellipsis. Every value written is counted, and after each `checkInterval` of them a check may
end the rendering with an error of its own.
-/

namespace RemoteEval

/-- The depth below which nothing but an ellipsis is shown. -/
def depthLimit : Nat := 64

/-- How many values are written between two checks. -/
def checkInterval : Nat := 4096

/-- A rendering in progress. -/
structure Page where
  /-- What has been written. -/
  text : String
  /-- How many values have been visited. -/
  visited : Nat
deriving DecidableEq, Repr

namespace Page

/-- The rendering before its first value. -/
def blank : Page := ⟨"", 0⟩

/-- Add text. -/
def write (p : Page) (s : String) : Page :=
  { p with text := p.text ++ s }

/-- How many checks were due so far. -/
def checks (p : Page) : Nat :=
  p.visited / checkInterval

end Page

/-- A check that may stop a rendering, told how many checks are due with it. -/
abbrev Check (ε : Type) := Nat → Except ε Unit

/-- A piece of rendering. -/
abbrev Writing (ε : Type) := Page → Except ε Page

namespace Writing

variable {ε : Type} {α : Type}

/-- Count one more value, and run the check if it is due. -/
def visit (check : Check ε) : Writing ε := fun p =>
  let next := { p with visited := p.visited + 1 }
  if next.visited % checkInterval = 0 then
    match check next.checks with
    | .ok () => .ok next
    | .error e => .error e
  else .ok next

/-- Add text. -/
def literal (s : String) : Writing ε := fun p => .ok (p.write s)

/-- One piece after another. -/
def append (first second : Writing ε) : Writing ε := fun p =>
  match first p with
  | .ok next => second next
  | .error e => .error e

instance : Append (Writing ε) := ⟨append⟩

/-- Each item after a comma. -/
def followers (item : α → Writing ε) : List α → Writing ε
  | [], p => .ok p
  | x :: rest, p =>
    match item x (p.write ", ") with
    | .ok next => followers item rest next
    | .error e => .error e

/-- Items separated by commas. -/
def separated (item : α → Writing ε) : List α → Writing ε
  | [], p => .ok p
  | x :: rest, p => (item x ++ followers item rest) p

/-- Each of `count` integers from `start` on, after a comma. -/
def countedFollowers (item : Int → Writing ε) : (count : Nat) → (start : Int) → Writing ε
  | 0, _, p => .ok p
  | count + 1, start, p =>
    match item start (p.write ", ") with
    | .ok next => countedFollowers item count (start + 1) next
    | .error e => .error e

/-- `count` integers from `start` on, separated by commas. -/
def counted (item : Int → Writing ε) : (count : Nat) → (start : Int) → Writing ε
  | 0, _, p => .ok p
  | count + 1, start, p => (item start ++ countedFollowers item count (start + 1)) p

/-- A list in braces. -/
def braced (body : Writing ε) : Writing ε :=
  literal "\x7b " ++ body ++ literal " \x7d"

end Writing

namespace Value

open Writing

variable {ε : Type}

/-- Write a value of which `levels` levels are shown. -/
def renderAt (check : Check ε) : (levels : Nat) → Value → Writing ε
  | 0, _ => visit check ++ literal "..."
  | levels + 1, v => visit check ++
    match v with
    | null => literal "null"
    | bool true => literal "true"
    | bool false => literal "false"
    | int i => literal (toString i.toInt)
    | float x => literal (Number.Layout.plain.text x)
    | str s => literal "\"" ++ literal s ++ literal "\""
    | char c => literal (String.singleton c)
    | array items => braced (separated (renderAt check levels) items)
    | map entries =>
      literal "\x7b" ++
        separated
          (fun e => braced
            (renderAt check levels e.1 ++ literal ", " ++ renderAt check levels e.2))
          entries ++
        literal "\x7d"
    | seq _ (.range start stop) =>
      braced (counted (fun i => renderAt check levels (int (Int64.ofInt i)))
        (Source.rangeLength start stop) start.toInt)
    | seq _ (.items values) => braced (separated (renderAt check levels) values)
    | seq _ (.refused text) => literal text
    | seq identity (.echo times) =>
      braced (separated (renderAt check levels)
        (List.replicate times (seq identity (.echo times))))
    | object text => literal text

/-- Write a value, with a check after every `checkInterval` values. -/
def render (check : Check ε) (v : Value) : Except ε Page :=
  v.renderAt check (depthLimit + 1) Page.blank

/-- The text of a value. -/
def text (v : Value) : String :=
  match v.render (fun _ => (.ok () : Except Empty Unit)) with
  | .ok page => page.text

end Value

end RemoteEval
