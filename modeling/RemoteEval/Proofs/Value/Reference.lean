import Mathlib.Data.List.Forall2
import RemoteEval.Proofs.Value.Strokes

/-!
# The text of a value is its reference rendering, cut

The reference gives a value no more than one text (`Value.Renders.unique`), and a value that is cut
at the limit has the one that is written for it (`Value.renders_cutTo`). Values that are the same
down to the limit and have something in the same places below it are written with the same strokes
(`Value.AgreeTo.strokes_eq`), so they show as the same text (`Value.reference_rendering`).
-/

namespace RemoteEval.Value

open Stroke

variable {levels : Nat}

/-! ## One text -/

mutual

/-- A value has at most one text. -/
theorem Renders.unique {v : Value} {s t : String} (hs : v.Renders s) (ht : v.Renders t) :
    s = t := by
  match hs, ht with
  | .null, .null | .true, .true | .false, .false => rfl
  | .int _, .int _ | .float _, .float _ | .str _, .str _ | .char _, .char _ => rfl
  | .array h, .array h' => rw [h.unique h']
  | .map h, .map h' => rw [h.unique h']
  | .walked hitems h, .walked hitems' h' =>
    obtain rfl := Option.some.inj (hitems.symm.trans hitems')
    exact h.unique h'
  | .walked hitems _, .refused hnone | .refused hnone, .walked hitems _ =>
    rw [hnone] at hitems
    cases hitems
  | .refused _, .refused _ => rfl
  | .object _, .object _ => rfl

theorem RendersItems.unique {items : List Value} {texts texts' : List String}
    (h : RendersItems items texts) (h' : RendersItems items texts') : texts = texts' := by
  match h, h' with
  | .nil, .nil => rfl
  | .cons hv hitems, .cons hv' hitems' => rw [hv.unique hv', hitems.unique hitems']

theorem RendersEntries.unique {entries : List (Value × Value)} {texts texts' : List String}
    (h : RendersEntries entries texts) (h' : RendersEntries entries texts') : texts = texts' := by
  match h, h' with
  | .nil, .nil => rfl
  | .cons hk hv hentries, .cons hk' hv' hentries' =>
    rw [hk.unique hk', hv.unique hv', hentries.unique hentries']

end

/-! ## Cutting -/

theorem rendersItems_cutTo
    (h : ∀ v : Value, (v.cutTo levels).Renders (Stroke.text (v.strokes levels)))
    (items : List Value) :
    RendersItems (items.map (cutTo levels)) ((items.map (strokes levels)).map Stroke.text) := by
  induction items with
  | nil => exact .nil
  | cons v items ih => exact .cons (h v) ih

theorem rendersEntries_cutTo
    (h : ∀ v : Value, (v.cutTo levels).Renders (Stroke.text (v.strokes levels)))
    (entries : List (Value × Value)) :
    RendersEntries (entries.map fun e => (e.1.cutTo levels, e.2.cutTo levels))
      ((entries.map fun e => braced (separated [strokes levels e.1, strokes levels e.2])).map
        Stroke.text) := by
  induction entries with
  | nil => exact .nil
  | cons e entries ih =>
    rw [List.map_cons, List.map_cons, List.map_cons, text_braced]
    exact .cons (h e.1) (h e.2) ih

/-- The reference gives a value that is cut the text that is written for the value. -/
theorem renders_cutTo (v : Value) : (v.cutTo levels).Renders (Stroke.text (v.strokes levels)) := by
  induction levels generalizing v with
  | zero => exact .object "..."
  | succ levels ih =>
    have hitems (items : List Value) : (array (items.map (cutTo levels))).Renders
        (Stroke.text (braced (separated (items.map (strokes levels))))) := by
      rw [text_braced]
      exact .array (rendersItems_cutTo ih items)
    cases v with
    | null => exact .null
    | bool b => cases b with
      | true => exact .true
      | false => exact .false
    | int i => simpa [strokes, cutTo] using Renders.int i
    | float x => simpa [strokes, cutTo] using Renders.float x
    | str s => simpa [strokes, cutTo, String.append_assoc] using Renders.str s
    | char c => simpa [strokes, cutTo] using Renders.char c
    | object text => simpa [strokes, cutTo] using Renders.object text
    | array items => exact hitems items
    | map entries =>
      have hentries := Renders.map (rendersEntries_cutTo ih entries)
      simpa [strokes, cutTo, text_separated, String.append_assoc] using hentries
    | seq identity source =>
      cases hyields : source.yielded? identity with
      | some items =>
        rw [cutTo, hyields]
        have hcut : (Source.items (items.map (cutTo levels))).yielded? identity =
            some (items.map (cutTo levels)) := rfl
        simpa [strokes, hyields] using Renders.walked hcut (hitems items)
      | none =>
        rw [cutTo, hyields]
        simpa [strokes, hyields] using Renders.refused hyields

/-! ## Agreement -/

/-- Two values are the same but for what is `levels` levels below them, where each has something in
the same places. -/
def AgreeTo : (levels : Nat) → Value → Value → Prop
  | 0, _, _ => True
  | levels + 1, v, w =>
    match v, w with
    | array items, array items' => List.Forall₂ (AgreeTo levels) items items'
    | map entries, map entries' =>
      List.Forall₂ (fun e e' => AgreeTo levels e.1 e'.1 ∧ AgreeTo levels e.2 e'.2) entries entries'
    | seq identity source, seq identity' source' =>
      match source.yielded? identity, source'.yielded? identity' with
      | some items, some items' => List.Forall₂ (AgreeTo levels) items items'
      | none, none => source.description = source'.description
      | _, _ => False
    | v, w => v = w

theorem map_eq_map_of_forall₂ {α β : Type} {R : α → α → Prop} {f : α → β} {xs ys : List α}
    (hR : ∀ x y, R x y → f x = f y) (h : List.Forall₂ R xs ys) : xs.map f = ys.map f := by
  induction h with
  | nil => rfl
  | cons hxy _ ih => rw [List.map_cons, List.map_cons, hR _ _ hxy, ih]

/-- Values that agree are written with the same strokes. -/
theorem AgreeTo.strokes_eq {v w : Value} (h : AgreeTo levels v w) :
    v.strokes levels = w.strokes levels := by
  induction levels generalizing v w with
  | zero => rfl
  | succ levels ih =>
    have hitems {items items' : List Value} (hall : List.Forall₂ (AgreeTo levels) items items') :
        items.map (strokes levels) = items'.map (strokes levels) :=
      map_eq_map_of_forall₂ (fun _ _ => ih) hall
    unfold AgreeTo at h
    split at h
    · simp only [strokes]
      rw [hitems h]
    · next entries entries' =>
      have hentries : (entries.map fun e =>
            braced (separated [strokes levels e.1, strokes levels e.2])) =
          entries'.map fun e => braced (separated [strokes levels e.1, strokes levels e.2]) :=
        map_eq_map_of_forall₂ (fun _ _ he => by rw [ih he.1, ih he.2]) h
      simp only [strokes]
      rw [hentries]
    · split at h
      · next hyields hyields' =>
        simp only [strokes, hyields, hyields']
        rw [hitems h]
      · next hnone hnone' => simp only [strokes, hnone, hnone', h]
      · exact h.elim
    · rw [h]

/-! ## Texts -/

/-- The text of a value is the one text that the reference gives it when everything below the limit
is cut off. Values that are the same down to the limit, and have something in the same places below
it, show as the same text. -/
theorem reference_rendering :
    (∀ (v : Value) (s : String), (v.cutTo (depthLimit + 1)).Renders s ↔ s = v.text) ∧
    (∀ v w : Value, AgreeTo (depthLimit + 1) v w → v.text = w.text) := by
  constructor
  · intro v s
    rw [text_eq]
    constructor
    · exact fun h => h.unique (renders_cutTo v)
    · rintro rfl
      exact renders_cutTo v
  · intro v w h
    rw [text_eq, text_eq, h.strokes_eq]

/-- A value in arrays that are in one another. -/
def nested : (depth : Nat) → Value → Value
  | 0, v => v
  | depth + 1, v => array [nested depth v]

theorem agreeTo_nested (depth : Nat) (v w : Value) :
    AgreeTo depth (nested depth v) (nested depth w) := by
  induction depth with
  | zero => trivial
  | succ depth ih => exact .cons ih .nil

/-- What is below the limit does not show. What is above it shows as the reference has it, with what
a sequence yields in the place of the sequence. -/
theorem reference_rendering_nested :
    (nested 65 (int 1)).text = (nested 65 (map [(null, null)])).text ∧
    ((array [str "a", seq 0 (.range 0 2), seq 1 (.refused "b")]).cutTo (depthLimit + 1)).Renders
      "\x7b \"a\", \x7b 0, 1 \x7d, b \x7d" :=
  ⟨reference_rendering.2 _ _ (agreeTo_nested 65 _ _),
    (reference_rendering.1 _ _).2 (by decide +kernel)⟩

end RemoteEval.Value
