import RemoteEval.Proofs.Resource.Order

/-!
# Cycles are found

A search that tolerates no cycle fails at an item that is visited and not done. Such an item is on
the stack, which leads from it to the item whose dependency it is, so it is in a cycle
(`Sound.onCycle_of_run`). A search that does not fail has every dependency of an item done before
the item itself, because what is above an item on the stack is done before it (`Clear`), so there is
no cycle among its items (`Strict.not_onCycle`). Up to its failure it takes the same steps as one
that tolerates cycles (`visitAll_lenient_of_strict`).

`sort_strict` says this of a whole sort.
-/

namespace RemoteEval.Resource

variable {α : Type} {items : List α} {dependencies : α → List α}

/-- An item depends on itself, through other items or alone. -/
def OnCycle (items : List α) (dependencies : α → List α) (x : α) : Prop :=
  Relation.TransGen (DependsOn items dependencies) x x

theorem OnCycle.mem {x : α} (h : OnCycle items dependencies x) : x ∈ items := by
  obtain ⟨d, hd, -⟩ := Relation.TransGen.head'_iff.1 h
  exact hd.1

/-- A dependency that leads back to what depends on it closes a cycle. -/
theorem OnCycle.of_reaches {x d : α} (hd : DependsOn items dependencies x d)
    (hback : Reaches items dependencies d x) : OnCycle items dependencies d :=
  .tail' hback hd

variable [DecidableEq α]

namespace Search

variable {s next : Search items} {x d : Member items} {more : List (Member items)}
  {rest : List (Visit items)} {mode : CycleMode} {e : CyclicDependency α}

/-! ## The steps of a search -/

theorem run_done (hstack : s.stack = []) : s.run dependencies mode = .ok s := by
  rw [Search.run]
  split <;> simp_all

theorem run_finish (hstack : s.stack = ⟨x, []⟩ :: rest) :
    s.run dependencies mode =
      Search.run dependencies mode { s with emitted := s.emitted ++ [x], stack := rest } := by
  rw [Search.run]
  split <;> simp_all

theorem run_skip (hstack : s.stack = ⟨x, d :: more⟩ :: rest) (hd : d ∈ s.visited)
    (hcycle : s.closesCycle mode d = false) :
    s.run dependencies mode =
      Search.run dependencies mode { s with stack := ⟨x, more⟩ :: rest } := by
  rw [Search.run]
  split <;> simp_all

theorem run_descend (hstack : s.stack = ⟨x, d :: more⟩ :: rest) (hd : d ∉ s.visited) :
    s.run dependencies mode = Search.run dependencies mode
      (Search.enter dependencies { s with stack := ⟨x, more⟩ :: rest } d) := by
  rw [Search.run]
  split <;> simp_all

/-! ## A search that fails -/

/-- A dependency that is visited and not done is on the stack, which leads from it to the item that
depends on it. -/
theorem Sound.onCycle_of_closesCycle (hs : Sound dependencies s)
    (hstack : s.stack = ⟨x, d :: more⟩ :: rest) (hd : d ∈ s.visited)
    (hcycle : s.closesCycle mode d = true) : OnCycle items dependencies d.val := by
  simp only [closesCycle, Bool.and_eq_true, decide_eq_true_eq] at hcycle
  have hbegun : d ∈ (⟨x, d :: more⟩ :: rest).map Visit.item := by
    rw [← hstack]
    exact ((hs.visited d).1 hd).resolve_left hcycle.2
  have hdepends : d ∈ memberDependencies dependencies x :=
    hs.pending ⟨x, d :: more⟩ (by simp [hstack]) d (by simp)
  have hback : Reaches items dependencies d.val x.val := by
    rcases List.mem_cons.1 hbegun with rfl | hbegun
    · exact .refl
    · obtain ⟨v, hv, rfl⟩ := List.mem_map.1 hbegun
      have hreached := hs.reached
      rw [hstack, List.pairwise_cons] at hreached
      exact hreached.1 v hv
  exact .of_reaches ⟨x.property, d.property, mem_memberDependencies.1 hdepends⟩ hback

theorem Sound.onCycle_of_run (hs : Sound dependencies s)
    (hrun : s.run dependencies mode = .error e) : OnCycle items dependencies e.item := by
  fun_induction Search.run dependencies mode s with
  | case1 s hstack => cases hrun
  | case2 s x rest hstack ih => exact ih (hs.finish hstack) hrun
  | case3 s x d more rest hstack hd hcycle =>
    cases hrun
    exact hs.onCycle_of_closesCycle hstack hd hcycle
  | case4 s x d more rest hstack after hd hcycle ih => exact ih (hs.skip [] hstack hd) hrun
  | case5 s x d more rest hstack after hd ih => exact ih (hs.descend hstack hd) hrun

/-- Between two searches everything that was begun is done, so that none fails at its first
item. -/
theorem Sound.onCycle_of_visit (hs : Sound dependencies s) (hdone : s.stack = [])
    (hvisit : s.visit dependencies mode x = .error e) : OnCycle items dependencies e.item := by
  unfold Search.visit at hvisit
  split at hvisit
  · next hx =>
    have hemitted : x ∈ s.emitted := by simpa [hdone] using (hs.visited x).1 hx
    simp [closesCycle, hemitted] at hvisit
  · next hx => exact (hs.enter hx (by simp [hdone])).onCycle_of_run hvisit

theorem Sound.onCycle_of_visitAll (hs : Sound dependencies s) (hdone : s.stack = [])
    {roots : List (Member items)}
    (hvisit : roots.foldlM (Search.visit dependencies mode) s = .error e) :
    OnCycle items dependencies e.item := by
  induction roots generalizing s with
  | nil => cases hvisit
  | cons x roots ih =>
    rw [List.foldlM_cons] at hvisit
    cases hx : s.visit dependencies mode x with
    | error e' =>
      rw [hx] at hvisit
      cases hvisit
      exact hs.onCycle_of_visit hdone hx
    | ok after =>
      rw [hx] at hvisit
      obtain ⟨hafter, hadone, -, -⟩ := hs.visit hdone hx
      exact ih hafter hadone hvisit

/-! ## A search that does not fail -/

/-- Every dependency of an item on the stack remains, is done, or is above the item. -/
def Clear (dependencies : α → List α) (emitted : List (Member items)) :
    (above : List (Member items)) → List (Visit items) → Prop
  | _, [] => True
  | above, v :: below =>
    (∀ d ∈ memberDependencies dependencies v.item, d ∈ v.pending ∨ d ∈ emitted ∨ d ∈ above) ∧
      Clear dependencies emitted (v.item :: above) below

/-- What is done or above stays so. -/
theorem Clear.mono {emitted emitted' above above' : List (Member items)}
    {stack : List (Visit items)} (h : Clear dependencies emitted above stack)
    (hsub : ∀ d, d ∈ emitted ∨ d ∈ above → d ∈ emitted' ∨ d ∈ above') :
    Clear dependencies emitted' above' stack := by
  induction stack generalizing above above' with
  | nil => trivial
  | cons v below ih =>
    obtain ⟨hv, hbelow⟩ := h
    refine ⟨fun d hd => (hv d hd).imp_right (hsub d), ih hbelow fun d hd => ?_⟩
    simp only [List.mem_cons] at hd ⊢
    have := hsub d
    tauto

/-- Every dependency of what is done was done before it, and what is on the stack waits for nothing
below it. -/
structure Strict (dependencies : α → List α) (s : Search items) : Prop where
  /-- Dependencies are done before what depends on them. -/
  ordered : ∀ before x after, s.emitted = before ++ x :: after →
    ∀ d ∈ memberDependencies dependencies x, d ∈ before
  /-- What an item on the stack waits for is above it. -/
  clear : Clear dependencies s.emitted [] s.stack

theorem Strict.start : Strict dependencies (Search.start : Search items) where
  ordered := by simp [Search.start]
  clear := trivial

/-- An item on top of the stack waits for nothing but what remains. -/
theorem Strict.finish (hs : Strict dependencies s) (hstack : s.stack = ⟨x, []⟩ :: rest) :
    Strict dependencies { s with emitted := s.emitted ++ [x], stack := rest } := by
  have hclear := hs.clear
  rw [hstack] at hclear
  obtain ⟨hx, hrest⟩ := hclear
  refine ⟨forall_split_snoc hs.ordered fun d hd => ?_, hrest.mono fun d hd => ?_⟩
  · simpa using hx d hd
  · simpa using hd

/-- A dependency that is visited is done, if it closes no cycle. -/
theorem Strict.skip (hs : Strict dependencies s) (hstack : s.stack = ⟨x, d :: more⟩ :: rest)
    (hd : d ∈ s.emitted) : Strict dependencies { s with stack := ⟨x, more⟩ :: rest } := by
  have hclear := hs.clear
  rw [hstack] at hclear
  obtain ⟨hx, hrest⟩ := hclear
  refine ⟨hs.ordered, fun e he => ?_, hrest⟩
  rcases hx e he with he | he
  · rcases List.mem_cons.1 he with rfl | he
    · exact .inr (.inl hd)
    · exact .inl he
  · exact .inr he

/-- A dependency that is begun is above what depends on it. -/
theorem Strict.descend (hs : Strict dependencies s)
    (hstack : s.stack = ⟨x, d :: more⟩ :: rest) :
    Strict dependencies (Search.enter dependencies { s with stack := ⟨x, more⟩ :: rest } d) := by
  have hclear := hs.clear
  rw [hstack] at hclear
  obtain ⟨hx, hrest⟩ := hclear
  refine ⟨hs.ordered, fun e he => .inl he, fun e he => ?_, hrest.mono fun e he => ?_⟩
  · rcases hx e he with he | he
    · rcases List.mem_cons.1 he with rfl | he
      · exact .inr (.inr (by simp))
      · exact .inl he
    · rw [List.mem_nil_iff, or_false] at he
      exact .inr (.inl he)
  · simp only [List.mem_cons] at he ⊢
    tauto

theorem Strict.run (hs : Strict dependencies s) (hrun : s.run dependencies .strict = .ok next) :
    Strict dependencies next := by
  fun_induction Search.run dependencies .strict s with
  | case1 s hstack =>
    cases hrun
    exact hs
  | case2 s x rest hstack ih => exact ih (hs.finish hstack) hrun
  | case3 s x d more rest hstack hd hcycle => cases hrun
  | case4 s x d more rest hstack after hd hcycle ih =>
    exact ih (hs.skip hstack (by simpa [closesCycle] using hcycle)) hrun
  | case5 s x d more rest hstack after hd ih => exact ih (hs.descend hstack) hrun

theorem Strict.visit (hs : Strict dependencies s) (hdone : s.stack = [])
    (hvisit : s.visit dependencies .strict x = .ok next) : Strict dependencies next := by
  unfold Search.visit at hvisit
  split at hvisit
  · split at hvisit <;> cases hvisit
    exact hs
  · have hentered : Strict dependencies (s.enter dependencies x) := by
      refine ⟨hs.ordered, ?_⟩
      rw [Search.enter, hdone]
      exact ⟨fun d hd => .inl hd, trivial⟩
    exact hentered.run hvisit

theorem Strict.visitAll (hs : Strict dependencies s) (hsound : Sound dependencies s)
    (hdone : s.stack = []) {roots : List (Member items)}
    (hvisit : roots.foldlM (Search.visit dependencies .strict) s = .ok next) :
    Strict dependencies next := by
  induction roots generalizing s with
  | nil =>
    cases hvisit
    exact hs
  | cons x roots ih =>
    obtain ⟨after, hx, hrest⟩ := exists_of_visitAll_cons hvisit
    obtain ⟨hafter, hadone, -, -⟩ := hsound.visit hdone hx
    exact ih (hs.visit hdone hx) hafter hadone hrest

/-- Where every item is done after what it depends on, none depends on itself. -/
theorem Strict.not_onCycle (hs : Strict dependencies s) (hsound : Sound dependencies s)
    (hdone : s.stack = []) (hall : items.attach ⊆ s.visited) (a : α) :
    ¬OnCycle items dependencies a := by
  have hbefore {a b : α} (h : DependsOn items dependencies a b) :
      (s.emitted.map Subtype.val).idxOf b < (s.emitted.map Subtype.val).idxOf a := by
    obtain ⟨ha, hb, hmem⟩ := h
    exact hsound.idxOf_lt (x := ⟨a, ha⟩) (d := ⟨b, hb⟩) hdone hall fun before after heq =>
      hs.ordered before _ after heq _ (mem_memberDependencies.2 hmem)
  have hlt {a b : α} (h : Relation.TransGen (DependsOn items dependencies) a b) :
      (s.emitted.map Subtype.val).idxOf b < (s.emitted.map Subtype.val).idxOf a := by
    induction h with
    | single h => exact hbefore h
    | tail _ h ih => exact Nat.lt_trans (hbefore h) ih
  exact fun h => Nat.lt_irrefl _ (hlt h)

/-! ## The same steps in both modes -/

theorem run_lenient_of_strict (hrun : s.run dependencies .strict = .ok next) :
    s.run dependencies .lenient = .ok next := by
  fun_induction Search.run dependencies .strict s with
  | case1 s hstack =>
    cases hrun
    exact run_done hstack
  | case2 s x rest hstack ih => rw [run_finish hstack, ih hrun]
  | case3 s x d more rest hstack hd hcycle => cases hrun
  | case4 s x d more rest hstack after hd hcycle ih => rw [run_skip hstack hd rfl, ih hrun]
  | case5 s x d more rest hstack after hd ih => rw [run_descend hstack hd, ih hrun]

theorem visit_lenient_of_strict (hvisit : s.visit dependencies .strict x = .ok next) :
    s.visit dependencies .lenient x = .ok next := by
  unfold Search.visit at hvisit ⊢
  split at hvisit
  · next hx =>
    split at hvisit <;> cases hvisit
    rw [if_pos hx]
    rfl
  · next hx =>
    rw [if_neg hx]
    exact run_lenient_of_strict hvisit

theorem visitAll_lenient_of_strict {roots : List (Member items)}
    (hvisit : roots.foldlM (Search.visit dependencies .strict) s = .ok next) :
    roots.foldlM (Search.visit dependencies .lenient) s = .ok next := by
  induction roots generalizing s with
  | nil => exact hvisit
  | cons x roots ih =>
    obtain ⟨after, hx, hrest⟩ := exists_of_visitAll_cons hvisit
    rw [List.foldlM_cons, visit_lenient_of_strict hx]
    exact ih hrest

end Search

/-! ## The order -/

theorem sort_strict_error {e : CyclicDependency α}
    (hsort : sort items dependencies .strict = .error e) : OnCycle items dependencies e.item := by
  unfold sort at hsort
  split at hsort
  · cases hsort
  · next heq =>
    cases hsort
    exact Search.Sound.start.onCycle_of_visitAll rfl heq

theorem sort_strict_ok {order : List α} (hsort : sort items dependencies .strict = .ok order) :
    (∀ x, ¬OnCycle items dependencies x) ∧ sort items dependencies .lenient = .ok order := by
  unfold sort at hsort
  split at hsort
  · next s heq =>
    cases hsort
    obtain ⟨hsound, hdone, hall, -⟩ := Search.Sound.start.visitAll rfl heq
    have hstrict := Search.Strict.start.visitAll Search.Sound.start rfl heq
    refine ⟨hstrict.not_onCycle hsound hdone hall, ?_⟩
    rw [sort, Search.visitAll_lenient_of_strict heq]
  · cases hsort

/-- Where cycles are not tolerated, there is no order if and only if an item is in a cycle. The item
that is named is in one, and if there is an order, it is the one that comes out where cycles are
tolerated. -/
theorem sort_strict (items : List α) (dependencies : α → List α) :
    ((∃ e, sort items dependencies .strict = .error e) ↔ ∃ x, OnCycle items dependencies x) ∧
      (∀ e, sort items dependencies .strict = .error e →
        ∀ debug : α → String, ∃ x ∈ items, OnCycle items dependencies x ∧ e.named debug = debug x) ∧
      ∀ order, sort items dependencies .strict = .ok order →
        sort items dependencies .lenient = .ok order := by
  refine ⟨⟨?_, ?_⟩, fun e he debug => ?_, fun order horder => (sort_strict_ok horder).2⟩
  · rintro ⟨e, he⟩
    exact ⟨e.item, sort_strict_error he⟩
  · rintro ⟨x, hx⟩
    cases hsort : sort items dependencies .strict with
    | error e => exact ⟨e, rfl⟩
    | ok order => exact ((sort_strict_ok hsort).1 x hx).elim
  · have hcycle := sort_strict_error he
    exact ⟨e.item, hcycle.mem, hcycle, rfl⟩

/-- Dependencies without a cycle, of which two lead to `3`. -/
def diamond : Nat → List Nat
  | 0 => [1, 2]
  | 1 => [3]
  | 2 => [3, 7]
  | _ => []

/-- What depends on a cycle and is not in it is not named, though it is visited first ; and what is
reached twice is in no cycle. -/
theorem sort_strict_two_cycle :
    (OnCycle [0, 1, 2, 0] twoCycle 1 ∧ ¬OnCycle [0, 1, 2, 0] twoCycle 0 ∧
      ∃ e, sort [0, 1, 2, 0] twoCycle .strict = .error e ∧ e.named toString ≠ "0") ∧
    ∃ order, sort [3, 0, 1, 2, 3] diamond .strict = .ok order ∧
      sort [3, 0, 1, 2, 3] diamond .lenient = .ok order := by
  have hcycle : OnCycle [0, 1, 2, 0] twoCycle 1 :=
    .of_reaches ⟨by decide, by decide, by decide⟩ .refl
  have hnone : ¬OnCycle [0, 1, 2, 0] twoCycle 0 := by
    intro h
    obtain ⟨y, -, hy, -, hmem⟩ := Relation.TransGen.tail'_iff.1 h
    revert y
    decide
  obtain ⟨⟨-, hfails⟩, hnamed, -⟩ := sort_strict [0, 1, 2, 0] twoCycle
  obtain ⟨e, he⟩ := hfails ⟨1, hcycle⟩
  obtain ⟨x, hx, hxcycle, hshown⟩ := hnamed e he toString
  refine ⟨⟨hcycle, hnone, e, he, ?_⟩, ?_⟩
  · rw [hshown]
    have hall : ∀ x ∈ [0, 1, 2, 0], x ≠ 0 → toString x ≠ "0" := by decide
    exact hall x hx fun h => hnone (h ▸ hxcycle)
  · obtain ⟨⟨hfails, -⟩, -, hsame⟩ := sort_strict [3, 0, 1, 2, 3] diamond
    cases hsort : sort [3, 0, 1, 2, 3] diamond .strict with
    | ok order => exact ⟨order, rfl, hsame order hsort⟩
    | error e =>
      obtain ⟨x, hx⟩ := hfails ⟨e, hsort⟩
      have hlt {a b : Nat} (h : Relation.TransGen (DependsOn [3, 0, 1, 2, 3] diamond) a b) :
          a < b := by
        have hstep : ∀ a ∈ [3, 0, 1, 2, 3], ∀ b ∈ diamond a, a < b := by decide
        induction h with
        | single h => exact hstep _ h.1 _ h.2.2
        | tail _ h ih => exact Nat.lt_trans ih (hstep _ h.1 _ h.2.2)
      exact (Nat.lt_irrefl x (hlt hx)).elim

end RemoteEval.Resource
