import RemoteEval.Proofs.Value.Strokes

/-!
# When a rendering calls back

The check of a rendering stands for a callback that keeps a state. `Stroke.perform` draws strokes
with the callback itself and notes at which visited values it is called. It makes the calls that are
due and no others (`Callback.turn_desk`), so it ends as the rendering with the check does
(`Value.renderCalling_result`). If the callback succeeds as often as the values of a value make it
due, the text of the value comes out, and otherwise the error of the first call that fails, which is
the last one made (`Value.renderCalling_on_schedule`).
-/

namespace RemoteEval

/-- A callback that keeps a state : what a call comes to, and the state it leaves. -/
abbrev Callback (σ ε : Type) := σ → Except ε Unit × σ

/-- A rendering in progress that calls back. -/
structure Desk (σ : Type) where
  page : Page
  /-- The state of the callback. -/
  state : σ
  /-- How many values were visited at each call. -/
  calls : List Nat

/-- How many values are visited at each of `count` calls. -/
def schedule (count : Nat) : List Nat :=
  (List.range count).map fun n => checkInterval * (n + 1)

theorem schedule_succ (count : Nat) :
    schedule (count + 1) = schedule count ++ [checkInterval * (count + 1)] := by
  simp [schedule, List.range_succ]

/-! ## Pages -/

namespace Page

theorem checks_turned_of_due {p : Page} (h : p.turned.visited % checkInterval = 0) :
    p.turned.checks = p.checks + 1 ∧ p.turned.visited = checkInterval * (p.checks + 1) := by
  simp only [turned, checks, checkInterval] at h ⊢
  omega

theorem checks_turned_of_not_due {p : Page} (h : ¬p.turned.visited % checkInterval = 0) :
    p.turned.checks = p.checks := by
  simp only [turned, checks, checkInterval] at h ⊢
  omega

theorem checks_le_past (p : Page) (strokes : List Stroke) : p.checks ≤ (p.past strokes).checks :=
  Nat.div_le_div_right (Nat.le_add_right _ _)

theorem checks_le_turned (p : Page) : p.checks ≤ p.turned.checks :=
  Nat.div_le_div_right (Nat.le_succ _)

end Page

/-! ## One value -/

namespace Callback

variable {σ ε : Type} (call : Callback σ ε) (s : σ) {p : Page}

/-- The state after some calls. -/
def after : (count : Nat) → σ
  | 0 => s
  | count + 1 => (call (after count)).2

/-- What a call comes to that has `count` calls before it. -/
def outcome (count : Nat) : Except ε Unit :=
  (call (call.after s count)).1

/-- A callback as the check of a rendering. -/
def check : Check ε := fun due => call.outcome s (due - 1)

/-- Visit one more value, and call if it is due. -/
def turn (d : Desk σ) : Except ε Unit × Desk σ :=
  if d.page.turned.visited % checkInterval = 0 then
    ((call d.state).1, ⟨d.page.turned, (call d.state).2, d.calls ++ [d.page.turned.visited]⟩)
  else (.ok (), { d with page := d.page.turned })

/-- A rendering that has made the calls that were due so far. -/
def desk (p : Page) : Desk σ :=
  ⟨p, call.after s p.checks, schedule p.checks⟩

/-- What comes of the call that is due with the next value, if there is one. -/
def next (p : Page) : Except ε Unit :=
  if p.turned.visited % checkInterval = 0 then call.outcome s p.checks else .ok ()

/-- With one more value, the call that is due is made, and no other. -/
theorem turn_desk (p : Page) :
    call.turn (call.desk s p) = (call.next s p, call.desk s p.turned) := by
  unfold turn next desk
  by_cases hdue : p.turned.visited % checkInterval = 0
  · obtain ⟨hchecks, hvisited⟩ := Page.checks_turned_of_due hdue
    rw [if_pos hdue, if_pos hdue, hchecks, schedule_succ, ← hvisited]
    rfl
  · rw [if_neg hdue, if_neg hdue, Page.checks_turned_of_not_due hdue]

theorem visit_check (p : Page) :
    Writing.visit (call.check s) p = (call.next s p).map fun _ => p.turned := by
  rw [Writing.visit_eq, next]
  split
  · next hdue => rw [check, (Page.checks_turned_of_due hdue).1, Nat.add_sub_cancel]
  · rfl

theorem next_eq_ok (h : ∀ n, p.checks ≤ n → n < p.turned.checks → call.outcome s n = .ok ()) :
    call.next s p = .ok () := by
  unfold next
  split
  · next hdue =>
    have hchecks := (Page.checks_turned_of_due hdue).1
    exact h p.checks (Nat.le_refl _) (by omega)
  · rfl

theorem next_eq_outcome {n : Nat} (hle : p.checks ≤ n) (hlt : n < p.turned.checks) :
    p.turned.checks = n + 1 ∧ call.next s p = call.outcome s n := by
  by_cases hdue : p.turned.visited % checkInterval = 0
  · have hchecks := (Page.checks_turned_of_due hdue).1
    obtain rfl : n = p.checks := by omega
    exact ⟨hchecks, if_pos hdue⟩
  · have hchecks := Page.checks_turned_of_not_due hdue
    omega

end Callback

/-! ## Strokes -/

namespace Stroke

variable {σ ε : Type} (call : Callback σ ε) (s : σ)

/-- Draw strokes one after another, until a call fails. -/
def perform : List Stroke → Desk σ → Except ε Unit × Desk σ
  | [], d => (.ok (), d)
  | write text :: rest, d => perform rest { d with page := d.page.write text }
  | visit :: rest, d =>
    match call.turn d with
    | (.ok (), next) => perform rest next
    | (.error e, next) => (.error e, next)

/-- Strokes are drawn with a callback as they are with its check. -/
theorem draw_check (strokes : List Stroke) (p : Page) :
    draw (call.check s) strokes p =
      (perform call strokes (call.desk s p)).1.map fun _ =>
        (perform call strokes (call.desk s p)).2.page := by
  induction strokes generalizing p with
  | nil => rfl
  | cons stroke strokes ih =>
    cases stroke with
    | write text => exact ih (p.write text)
    | visit =>
      change Writing.append (Writing.visit (call.check s)) (draw (call.check s) strokes) p = _
      rw [Writing.append, call.visit_check, perform, call.turn_desk]
      cases call.next s p with
      | ok _ => exact ih p.turned
      | error e => rfl

variable {strokes : List Stroke} {p : Page}

/-- If every call that is due succeeds, all strokes are drawn. -/
theorem perform_of_ok
    (h : ∀ n, p.checks ≤ n → n < (p.past strokes).checks → call.outcome s n = .ok ()) :
    perform call strokes (call.desk s p) = (.ok (), call.desk s (p.past strokes)) := by
  induction strokes generalizing p with
  | nil => rw [perform, Page.past_nil]
  | cons stroke strokes ih =>
    cases stroke with
    | write text =>
      rw [Page.past_write] at h ⊢
      exact ih h
    | visit =>
      rw [Page.past_visit] at h ⊢
      have hturned := p.checks_le_turned
      have hpast := p.turned.checks_le_past strokes
      rw [perform, call.turn_desk, call.next_eq_ok s fun n hle hlt => h n hle (by omega)]
      exact ih fun n hle => h n (by omega)

/-- The first call that fails ends the drawing, and is the last that is made. -/
theorem perform_of_error {n : Nat} {e : ε} (hle : p.checks ≤ n) (hlt : n < (p.past strokes).checks)
    (hok : ∀ m, p.checks ≤ m → m < n → call.outcome s m = .ok ())
    (herror : call.outcome s n = .error e) :
    ∃ page : Page, page.checks = n + 1 ∧
      perform call strokes (call.desk s p) = (.error e, call.desk s page) := by
  induction strokes generalizing p with
  | nil =>
    rw [Page.past_nil] at hlt
    omega
  | cons stroke strokes ih =>
    cases stroke with
    | write text =>
      rw [Page.past_write] at hlt
      exact ih hle hlt hok
    | visit =>
      rw [Page.past_visit] at hlt
      rw [perform, call.turn_desk]
      rcases Nat.lt_or_ge n p.turned.checks with hnow | hlater
      · obtain ⟨hchecks, hnext⟩ := call.next_eq_outcome s hle hnow
        rw [hnext, herror]
        exact ⟨p.turned, hchecks, rfl⟩
      · have hturned := p.checks_le_turned
        rw [call.next_eq_ok s fun m hm hlt => hok m hm (by omega)]
        exact ih hlater hlt fun m hm => hok m (by omega)

end Stroke

/-! ## Values -/

/-- What comes of a rendering with a callback. -/
structure Called (σ ε : Type) where
  result : Except ε String
  /-- The state in which the callback is left. -/
  state : σ
  /-- How many values were visited at each call. -/
  calls : List Nat

namespace Value

variable {σ ε : Type} (call : Callback σ ε) (s : σ) (v : Value)

/-- Render a value with a callback. -/
def renderCalling : Called σ ε :=
  let ending := Stroke.perform call (v.strokes (depthLimit + 1)) ⟨Page.blank, s, []⟩
  ⟨ending.1.map fun _ => ending.2.page.text, ending.2.state, ending.2.calls⟩

theorem renderCalling_eq {outcome : Except ε Unit} {page : Page}
    (h : Stroke.perform call (v.strokes (depthLimit + 1)) (call.desk s Page.blank) =
      (outcome, call.desk s page)) :
    renderCalling call s v =
      ⟨outcome.map fun _ => page.text, call.after s page.checks, schedule page.checks⟩ := by
  change Stroke.perform call (v.strokes (depthLimit + 1)) ⟨Page.blank, s, []⟩ = _ at h
  rw [renderCalling, h]
  rfl

theorem checks_past_strokes :
    (Page.blank.past (v.strokes (depthLimit + 1))).checks =
      (v.valuesTo (depthLimit + 1)).length / checkInterval := by
  rw [Page.checks, Page.past, count_strokes, Page.blank, Nat.zero_add]

/-- A rendering with a callback ends as the rendering with its check does. -/
theorem renderCalling_result :
    (renderCalling call s v).result = (v.render (call.check s)).map Page.text := by
  rw [render, renderAt_eq_draw, Stroke.draw_check]
  change Except.map _ (Stroke.perform call _ (call.desk s Page.blank)).1 = _
  cases (Stroke.perform call (v.strokes (depthLimit + 1)) (call.desk s Page.blank)).1 <;> rfl

/-- The callback of a rendering is called at every `checkInterval`-th value, and the rendering comes
to what the program's own does. If the callback succeeds as often as the values down to the limit
make it due, the text of the value comes out after so many calls. Otherwise the error of the first
call that fails comes out, and no call is made after it. -/
theorem renderCalling_on_schedule :
    (renderCalling call s v).result = (v.render (call.check s)).map Page.text ∧
    ((∀ n < (v.valuesTo (depthLimit + 1)).length / checkInterval, call.outcome s n = .ok ()) →
      renderCalling call s v =
        ⟨.ok v.text, call.after s ((v.valuesTo (depthLimit + 1)).length / checkInterval),
          schedule ((v.valuesTo (depthLimit + 1)).length / checkInterval)⟩) ∧
    (∀ n e, n < (v.valuesTo (depthLimit + 1)).length / checkInterval →
      (∀ m < n, call.outcome s m = .ok ()) → call.outcome s n = .error e →
      renderCalling call s v = ⟨.error e, call.after s (n + 1), schedule (n + 1)⟩) := by
  have hchecks := checks_past_strokes v
  refine ⟨renderCalling_result call s v, fun hok => ?_, fun n e hn hok herror => ?_⟩
  · have hdue (n : Nat) (_ : Page.blank.checks ≤ n)
        (hlt : n < (Page.blank.past (v.strokes (depthLimit + 1))).checks) :
        call.outcome s n = .ok () := hok n (by omega)
    have hperform := Stroke.perform_of_ok call s hdue
    rw [renderCalling_eq call s v hperform, hchecks, text_eq]
    simp [text_past_blank, Except.map]
  · have hlt : n < (Page.blank.past (v.strokes (depthLimit + 1))).checks := by omega
    obtain ⟨page, hpage, hperform⟩ :=
      Stroke.perform_of_error call s (Nat.zero_le n) hlt (fun m _ => hok m) herror
    rw [renderCalling_eq call s v hperform, hpage]
    rfl

/-- A callback that succeeds as often as its state says. -/
def countdown : Callback Nat Unit
  | 0 => (.error (), 0)
  | left + 1 => (.ok (), left)

theorem length_valuesTo_array_null (count : Nat) :
    ((array (List.replicate count null)).valuesTo (depthLimit + 1)).length = count + 1 := by
  have hnull : valuesTo depthLimit null = [null] := rfl
  rw [valuesTo, contents, List.flatMap_replicate, hnull]
  simp

/-- An array with 8191 items makes two calls due, of which each may fail. -/
theorem renderCalling_on_schedule_twice :
    renderCalling countdown 2 (array (List.replicate 8191 null)) =
      ⟨.ok (array (List.replicate 8191 null)).text, 0, [4096, 8192]⟩ ∧
    renderCalling countdown 1 (array (List.replicate 8191 null)) =
      ⟨.error (), 0, [4096, 8192]⟩ ∧
    renderCalling countdown 0 (array (List.replicate 8191 null)) = ⟨.error (), 0, [4096]⟩ := by
  have hdue : ((array (List.replicate 8191 null)).valuesTo (depthLimit + 1)).length /
      checkInterval = 2 := by
    rw [length_valuesTo_array_null, checkInterval]
  obtain ⟨-, hok, -⟩ := renderCalling_on_schedule countdown 2 (array (List.replicate 8191 null))
  obtain ⟨-, -, hsecond⟩ := renderCalling_on_schedule countdown 1 (array (List.replicate 8191 null))
  obtain ⟨-, -, hfirst⟩ := renderCalling_on_schedule countdown 0 (array (List.replicate 8191 null))
  rw [hdue] at hok hsecond hfirst
  exact ⟨hok (by decide), hsecond 1 () (by decide) (by decide) rfl,
    hfirst 0 () (by decide) (by decide) rfl⟩

end Value

end RemoteEval
