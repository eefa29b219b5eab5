import Mathlib.Data.List.Basic
import RemoteEval.Value.Reference

/-!
# Renderings stroke by stroke

A rendering visits values and writes texts, and in which order it does so depends on the value
alone (`Value.strokes`). A check decides no more than how far it gets : to render is to draw these
strokes (`Value.renderAt_eq_draw`). So the text of a value is what the strokes write
(`Value.text_eq`), and as many values are visited as there are down to the limit
(`Value.count_strokes`).
-/

namespace RemoteEval

/-- One step of a rendering. -/
inductive Stroke where
  /-- Turn to the next value. -/
  | visit
  /-- Add text. -/
  | write (s : String)
deriving DecidableEq, Repr

namespace Stroke

/-- What strokes write. -/
def text : List Stroke → String
  | [] => ""
  | visit :: rest => text rest
  | write s :: rest => s ++ text rest

/-- Strokes behind one another, with a comma in front of all but the first. -/
def separated : List (List Stroke) → List Stroke
  | [] => []
  | first :: rest => first ++ rest.flatMap (write ", " :: ·)

/-- Strokes in braces. -/
def braced (body : List Stroke) : List Stroke :=
  write "\x7b " :: body ++ [write " \x7d"]

@[simp] theorem text_nil : text [] = "" := rfl

@[simp] theorem text_visit (strokes : List Stroke) : text (visit :: strokes) = text strokes := rfl

@[simp] theorem text_write (s : String) (strokes : List Stroke) :
    text (write s :: strokes) = s ++ text strokes := rfl

@[simp] theorem text_append (first second : List Stroke) :
    text (first ++ second) = text first ++ text second := by
  induction first with
  | nil => simp
  | cons stroke first ih => cases stroke <;> simp [ih, String.append_assoc]

theorem text_separated (parts : List (List Stroke)) :
    text (separated parts) = ", ".intercalate (parts.map text) := by
  cases parts with
  | nil => rfl
  | cons first rest =>
    rw [separated]
    induction rest generalizing first with
    | nil => simp
    | cons second rest ih =>
      have hrest := ih second
      rw [text_append, List.map_cons] at hrest
      simp [hrest, String.append_assoc]

theorem text_braced (parts : List (List Stroke)) :
    text (braced (separated parts)) = Text.braced (parts.map text) := by
  simp [braced, Text.braced, text_separated, String.append_assoc]

/-- No value is visited between the strokes. -/
theorem count_separated (parts : List (List Stroke)) :
    (separated parts).count visit = parts.flatten.count visit := by
  cases parts with
  | nil => rfl
  | cons first rest =>
    have hcomma : (List.count visit ∘ (write ", " :: ·)) = List.count visit :=
      funext fun _ => List.count_cons_of_ne (by decide)
    rw [separated, List.flatten_cons, List.count_append, List.count_append, List.count_flatMap,
      hcomma, List.count_flatten]

theorem count_braced (body : List Stroke) : (braced body).count visit = body.count visit := by
  simp [braced]

end Stroke

/-! ## Pages -/

namespace Page

/-- A page with one more value visited. -/
def turned (p : Page) : Page :=
  { p with visited := p.visited + 1 }

/-- The page that strokes make of a page. -/
def past (p : Page) (strokes : List Stroke) : Page :=
  ⟨p.text ++ Stroke.text strokes, p.visited + strokes.count .visit⟩

theorem past_nil (p : Page) : p.past [] = p := by
  simp [past]

theorem past_write (p : Page) (s : String) (strokes : List Stroke) :
    p.past (.write s :: strokes) = (p.write s).past strokes := by
  simp [past, write, String.append_assoc]

theorem past_visit (p : Page) (strokes : List Stroke) :
    p.past (.visit :: strokes) = p.turned.past strokes := by
  simp [past, turned, Nat.add_assoc, Nat.add_comm 1]

end Page

namespace Writing

variable {ε : Type} {check : Check ε}

theorem visit_eq (check : Check ε) (p : Page) :
    visit check p =
      if p.turned.visited % checkInterval = 0 then (check p.turned.checks).map fun _ => p.turned
      else .ok p.turned := by
  change (if p.turned.visited % checkInterval = 0 then _ else _) = _
  split
  · have hnext : (⟨p.text, p.visited + 1⟩ : Page) = p.turned := rfl
    rw [hnext]
    cases check p.turned.checks <;> rfl
  · rfl

/-- A check writes nothing. -/
theorem eq_turned_of_visit {p q : Page} (h : visit check p = .ok q) : q = p.turned := by
  rw [visit_eq] at h
  split at h
  · cases hcheck : check p.turned.checks with
    | ok _ =>
      rw [hcheck] at h
      exact (Except.ok.inj h).symm
    | error e =>
      rw [hcheck] at h
      cases h
  · exact (Except.ok.inj h).symm

theorem visit_of_passes (h : ∀ n, check n = .ok ()) (p : Page) : visit check p = .ok p.turned := by
  rw [visit_eq, h]
  exact ite_self _

end Writing

/-! ## Drawing -/

namespace Stroke

variable {ε α : Type} (check : Check ε)

/-- Draw strokes one after another, until a check stops it. -/
def draw : List Stroke → Writing ε
  | [], p => .ok p
  | visit :: rest, p => (Writing.visit check ++ draw rest) p
  | write s :: rest, p => draw rest (p.write s)

theorem draw_append (first second : List Stroke) :
    draw check (first ++ second) = draw check first ++ draw check second := by
  funext p
  induction first generalizing p with
  | nil => rfl
  | cons stroke first ih =>
    cases stroke with
    | write s => exact ih (p.write s)
    | visit =>
      change Writing.append _ _ p = Writing.append (Writing.append _ _) _ p
      unfold Writing.append
      cases Writing.visit check p with
      | error e => rfl
      | ok next => exact ih next

theorem draw_braced (body : List Stroke) :
    draw check (braced body) = Writing.braced (draw check body) := by
  change draw check ([write "\x7b "] ++ body ++ [write " \x7d"]) = _
  rw [draw_append, draw_append]
  rfl

theorem draw_followers (f : α → List Stroke) (xs : List α) :
    draw check ((xs.map f).flatMap (write ", " :: ·)) =
      Writing.followers (fun x => draw check (f x)) xs := by
  induction xs with
  | nil => rfl
  | cons x xs ih =>
    rw [List.map_cons, List.flatMap_cons, draw_append, ih]
    rfl

theorem draw_separated (f : α → List Stroke) (xs : List α) :
    draw check (separated (xs.map f)) = Writing.separated (fun x => draw check (f x)) xs := by
  cases xs with
  | nil => rfl
  | cons x xs =>
    rw [List.map_cons, separated, draw_append, draw_followers]
    rfl

theorem draw_pair (first second : List Stroke) :
    draw check (separated [first, second]) =
      draw check first ++ Writing.literal ", " ++ draw check second := by
  have hpair : separated [first, second] = first ++ [write ", "] ++ second := by simp [separated]
  rw [hpair, draw_append, draw_append]
  rfl

theorem map_range_succ (f : Int → α) (count : Nat) (start : Int) :
    (List.range (count + 1)).map (fun i : Nat => f (start + i)) =
      f start :: (List.range count).map fun i : Nat => f (start + 1 + i) := by
  rw [List.range_succ_eq_map, List.map_cons, List.map_map]
  congr 1
  · simp
  · exact List.map_congr_left fun i _ => congrArg f (by simp; omega)

theorem draw_countedFollowers (f : Int → List Stroke) (count : Nat) (start : Int) :
    draw check (((List.range count).map fun i : Nat => f (start + i)).flatMap (write ", " :: ·)) =
      Writing.countedFollowers (fun i => draw check (f i)) count start := by
  induction count generalizing start with
  | zero => rfl
  | succ count ih =>
    rw [map_range_succ, List.flatMap_cons, draw_append, ih]
    rfl

/-- Integers that are counted up are drawn as the items of a list are. -/
theorem draw_counted (f : Int → List Stroke) (count : Nat) (start : Int) :
    draw check (separated ((List.range count).map fun i : Nat => f (start + i))) =
      Writing.counted (fun i => draw check (f i)) count start := by
  cases count with
  | zero => rfl
  | succ count =>
    rw [map_range_succ, separated, draw_append, draw_countedFollowers]
    rfl

variable {check} {strokes : List Stroke} {p q : Page}

/-- Whatever the check is, all strokes are drawn if it does not stop the drawing. -/
theorem eq_past_of_draw (h : draw check strokes p = .ok q) : q = p.past strokes := by
  induction strokes generalizing p with
  | nil =>
    cases h
    exact (Page.past_nil _).symm
  | cons stroke strokes ih =>
    cases stroke with
    | write s =>
      rw [Page.past_write]
      exact ih h
    | visit =>
      change Writing.append _ _ p = .ok q at h
      unfold Writing.append at h
      split at h
      · next next hnext =>
        obtain rfl := Writing.eq_turned_of_visit hnext
        rw [Page.past_visit]
        exact ih h
      · cases h

theorem draw_of_passes (h : ∀ n, check n = .ok ()) (strokes : List Stroke) (p : Page) :
    draw check strokes p = .ok (p.past strokes) := by
  induction strokes generalizing p with
  | nil => rw [draw, Page.past_nil]
  | cons stroke strokes ih =>
    cases stroke with
    | write s => rw [draw, ih, Page.past_write]
    | visit =>
      change Writing.append _ _ p = _
      rw [Writing.append, Writing.visit_of_passes h, Page.past_visit]
      exact ih p.turned

end Stroke

namespace Value

open Stroke

variable {ε : Type} (check : Check ε)

/-- What is done to write a value of which `levels` levels are shown. -/
def strokes : (levels : Nat) → Value → List Stroke
  | 0, _ => [visit, write "..."]
  | levels + 1, v => visit ::
    match v with
    | null => [write "null"]
    | bool true => [write "true"]
    | bool false => [write "false"]
    | int i => [write (toString i.toInt)]
    | float x => [write (Number.Layout.plain.text x)]
    | str s => [write "\"", write s, write "\""]
    | char c => [write (String.singleton c)]
    | array items => braced (separated (items.map (strokes levels)))
    | map entries =>
      write "\x7b" ::
        separated (entries.map fun e =>
          braced (separated [strokes levels e.1, strokes levels e.2])) ++
        [write "\x7d"]
    | seq identity source =>
      match source.yielded? identity with
      | some items => braced (separated (items.map (strokes levels)))
      | none => [write source.description]
    | object text => [write text]

theorem renderAt_eq_draw (levels : Nat) (v : Value) :
    renderAt check levels v = draw check (v.strokes levels) := by
  induction levels generalizing v with
  | zero => rfl
  | succ levels ih =>
    have hitem : renderAt check levels = fun v => draw check (v.strokes levels) := funext ih
    have hitems (items : List Value) :
        Writing.braced (Writing.separated (renderAt check levels) items) =
          draw check (braced (separated (items.map (strokes levels)))) := by
      rw [hitem, draw_braced, draw_separated]
    refine congrArg (Writing.visit check ++ ·) ?_
    cases v with
    | null | int | float | char | str | object => rfl
    | bool b => cases b <;> rfl
    | array items => exact hitems items
    | map entries =>
      have hentry : (fun e : Value × Value => Writing.braced
          (renderAt check levels e.1 ++ Writing.literal ", " ++ renderAt check levels e.2)) =
          fun e => draw check (braced (separated [strokes levels e.1, strokes levels e.2])) :=
        funext fun e => by rw [ih, ih, draw_braced, draw_pair]
      change Writing.literal "\x7b" ++ Writing.separated (fun e => Writing.braced
        (renderAt check levels e.1 ++ Writing.literal ", " ++ renderAt check levels e.2)) entries ++
        Writing.literal "\x7d" = draw check ([write "\x7b"] ++ separated (entries.map fun e =>
          braced (separated [strokes levels e.1, strokes levels e.2])) ++ [write "\x7d"])
      rw [draw_append, draw_append, draw_separated, hentry]
      rfl
    | seq identity source =>
      cases source with
      | range start stop =>
        have hcounted := draw_counted check (fun i => strokes levels (int (Int64.ofInt i)))
          (Source.rangeLength start stop) start.toInt
        change Writing.braced (Writing.counted
          (fun i => renderAt check levels (int (Int64.ofInt i)))
          (Source.rangeLength start stop) start.toInt) =
          draw check (braced (separated (((List.range (Source.rangeLength start stop)).map
            fun i : Nat => int (Int64.ofInt (start.toInt + i))).map (strokes levels))))
        rw [draw_braced, List.map_map, hitem]
        exact congrArg Writing.braced hcounted.symm
      | items values => exact hitems values
      | refused text => rfl
      | echo times => exact hitems _

/-- A rendering that every check lets pass comes to its end. -/
theorem render_of_passes {check : Check ε} (h : ∀ n, check n = .ok ()) (v : Value) :
    v.render check = .ok (Page.blank.past (v.strokes (depthLimit + 1))) := by
  rw [render, renderAt_eq_draw, draw_of_passes h]

theorem text_past_blank (strokes : List Stroke) :
    (Page.blank.past strokes).text = Stroke.text strokes := by
  simp [Page.past, Page.blank]

/-- The text of a value is what the strokes write. -/
theorem text_eq (v : Value) : v.text = Stroke.text (v.strokes (depthLimit + 1)) := by
  rw [text, render_of_passes fun _ => rfl]
  exact text_past_blank _

/-- A rendering that no check stopped has written the text of the value. -/
theorem text_of_render {check : Check ε} {v : Value} {page : Page}
    (h : v.render check = .ok page) : page.text = v.text := by
  rw [render, renderAt_eq_draw] at h
  rw [eq_past_of_draw h, text_past_blank, text_eq]

theorem count_items (levels : Nat) (items : List Value)
    (h : ∀ v : Value, (v.strokes levels).count visit = (v.valuesTo levels).length) :
    (braced (separated (items.map (strokes levels)))).count visit =
      (items.flatMap (valuesTo levels)).length := by
  rw [count_braced, count_separated, List.count_flatten, List.length_flatMap, List.map_map]
  exact congrArg List.sum (List.map_congr_left fun v _ => h v)

/-- As many values are visited as there are. -/
theorem count_strokes (levels : Nat) (v : Value) :
    (v.strokes levels).count visit = (v.valuesTo levels).length := by
  induction levels generalizing v with
  | zero => rfl
  | succ levels ih =>
    rw [valuesTo, List.length_cons]
    cases v with
    | null | int | float | char | str | object => simp [strokes, contents]
    | bool b => cases b <;> simp [strokes, contents]
    | array items => simp [strokes, contents, count_items levels _ ih]
    | map entries =>
      have hall : (separated (entries.map fun e =>
          braced (separated [strokes levels e.1, strokes levels e.2]))).count visit =
          ((map entries).contents.flatMap (valuesTo levels)).length := by
        rw [count_separated, List.count_flatten, List.map_map, contents, List.flatMap_assoc,
          List.length_flatMap]
        exact congrArg List.sum (List.map_congr_left fun e _ => count_items levels [e.1, e.2] ih)
      simp [strokes, hall]
    | seq identity source =>
      cases hitems : source.yielded? identity with
      | some items => simp [strokes, contents, hitems, count_items levels _ ih]
      | none => simp [strokes, contents, hitems]

end Value

end RemoteEval
