import Mathlib.Data.List.Nodup
import Mathlib.Logic.Relation
import RemoteEval.Resource.Order

/-!
# Dependencies come first

Of two items the second of which depends on the first, the first is emitted before the second,
unless the two are in a cycle. The search keeps this of what it has emitted (`Search.Sound`),
because an item is emitted only when every dependency of it was begun, and those that were begun
and not emitted are on the way to it. There is one lemma for each step of the search
(`Sound.finish`, `Sound.skip`, `Sound.enter`, `Sound.descend`), and from them what a whole search
keeps (`Sound.run`, `Sound.visitAll`).

A search that tolerates cycles always comes to an end with an order (`visitAll_lenient`), and
`sort_lenient` says which orders come out.
-/

namespace RemoteEval.Resource

variable {α : Type} {items : List α} {dependencies : α → List α}

/-! ## Dependencies among items -/

/-- Both are items, and the second is a dependency of the first. -/
def DependsOn (items : List α) (dependencies : α → List α) (x d : α) : Prop :=
  x ∈ items ∧ d ∈ items ∧ d ∈ dependencies x

/-- The second is the first, or reached from it through dependencies among items. -/
def Reaches (items : List α) (dependencies : α → List α) : α → α → Prop :=
  Relation.ReflTransGen (DependsOn items dependencies)

variable [DecidableEq α]

theorem mem_memberDependencies {x d : Member items} :
    d ∈ memberDependencies dependencies x ↔ d.val ∈ dependencies x.val := by
  simp only [memberDependencies, List.mem_filterMap]
  constructor
  · rintro ⟨a, ha, h⟩
    split at h
    · cases h
      exact ha
    · cases h
  · exact fun h => ⟨d.val, h, by simp [d.property]⟩

theorem Reaches.of_mem {x d : Member items} (h : d ∈ memberDependencies dependencies x) :
    Reaches items dependencies x.val d.val :=
  .single ⟨x.property, d.property, mem_memberDependencies.1 h⟩

/-! ## The invariant of a search -/

/-- What holds of each element and what stands before it goes on to hold when one more element
comes to the end. -/
theorem forall_split_snoc {β : Type} {P : List β → β → Prop} {l : List β} {b : β}
    (h : ∀ before y after, l = before ++ y :: after → P before y) (hb : P l b) :
    ∀ before y after, l ++ [b] = before ++ y :: after → P before y := by
  intro before y after heq
  rcases List.eq_nil_or_concat after with rfl | ⟨after, z, rfl⟩
  · obtain ⟨rfl, hy⟩ := List.append_inj' heq rfl
    obtain rfl := List.singleton_inj.1 hy
    exact hb
  · have heq : l ++ [b] = (before ++ y :: after) ++ [z] := by simpa using heq
    exact h before y after (List.append_inj' heq rfl).1

namespace Search

/-- Each dependency of an emitted item was emitted before it, or leads back to it. -/
def Ordered (dependencies : α → List α) (emitted : List (Member items)) : Prop :=
  ∀ before x after, emitted = before ++ x :: after →
    ∀ d ∈ memberDependencies dependencies x, d ∈ before ∨ Reaches items dependencies d.val x.val

/-- What was begun is done or on the stack, once, and the stack is a way through dependencies. -/
structure Sound (dependencies : α → List α) (s : Search items) : Prop where
  /-- What was begun is done, or is on the stack. -/
  visited : ∀ x, x ∈ s.visited ↔ x ∈ s.emitted ∨ x ∈ s.stack.map Visit.item
  /-- Nothing is done twice, or done and on the stack. -/
  nodup : (s.emitted ++ s.stack.map Visit.item).Nodup
  /-- Each item on the stack is reached from those that were begun before it. -/
  reached : s.stack.Pairwise fun later earlier =>
    Reaches items dependencies earlier.item.val later.item.val
  /-- What remains of an item are dependencies of it. -/
  pending : ∀ v ∈ s.stack, ∀ d ∈ v.pending, d ∈ memberDependencies dependencies v.item
  /-- Each dependency that does not remain was begun. -/
  handled : ∀ v ∈ s.stack, ∀ d ∈ memberDependencies dependencies v.item,
    d ∈ v.pending ∨ d ∈ s.visited
  /-- Dependencies are done before what depends on them. -/
  ordered : Ordered dependencies s.emitted

variable {s next : Search items} {x d : Member items} {more : List (Member items)}
  {rest : List (Visit items)} {mode : CycleMode}

theorem Sound.start : Sound dependencies (Search.start : Search items) where
  visited := by simp [Search.start]
  nodup := by simp [Search.start]
  reached := .nil
  pending := by simp [Search.start]
  handled := by simp [Search.start]
  ordered := by simp [Ordered, Search.start]

theorem Ordered.snoc {emitted : List (Member items)} (h : Ordered dependencies emitted)
    (hx : ∀ d ∈ memberDependencies dependencies x,
      d ∈ emitted ∨ Reaches items dependencies d.val x.val) :
    Ordered dependencies (emitted ++ [x]) :=
  forall_split_snoc h hx

/-- An item without remaining dependencies is done : what it depends on and is not done is on the
stack, which leads to it. -/
theorem Sound.finish (hs : Sound dependencies s) (hstack : s.stack = ⟨x, []⟩ :: rest) :
    Sound dependencies { s with emitted := s.emitted ++ [x], stack := rest } := by
  have hvisited := hs.visited
  have hnodup := hs.nodup
  have hreached := hs.reached
  simp only [hstack, List.map_cons] at hvisited hnodup
  rw [hstack, List.pairwise_cons] at hreached
  have hreach (d : Member items) (hd : d ∈ x :: rest.map Visit.item) :
      Reaches items dependencies d.val x.val := by
    rcases List.mem_cons.1 hd with rfl | hd
    · exact .refl
    · obtain ⟨v, hv, rfl⟩ := List.mem_map.1 hd
      exact hreached.1 v hv
  refine
    { visited := fun y => ?_
      nodup := by simpa using hnodup
      reached := hreached.2
      pending := fun v hv => hs.pending v (by simp [hstack, hv])
      handled := fun v hv => hs.handled v (by simp [hstack, hv])
      ordered := hs.ordered.snoc fun d hd => ?_ }
  · rw [hvisited y]
    simp [or_assoc]
  · have hbegun : d ∈ s.visited := by
      simpa using hs.handled ⟨x, []⟩ (by simp [hstack]) d hd
    exact ((hvisited d).1 hbegun).imp_right (hreach d)

/-- A dependency that was begun before is passed over, wherever on the stack it remains. -/
theorem Sound.skip (hs : Sound dependencies s) (above : List (Visit items))
    (hstack : s.stack = above ++ ⟨x, d :: more⟩ :: rest) (hd : d ∈ s.visited) :
    Sound dependencies { s with stack := above ++ ⟨x, more⟩ :: rest } := by
  have hpending := hs.pending
  have hhandled := hs.handled
  have hreached := hs.reached
  simp only [hstack, List.forall_mem_append, List.forall_mem_cons] at hpending hhandled
  simp only [hstack, List.pairwise_append, List.pairwise_cons, List.forall_mem_cons] at hreached
  have hremains (e : Member items) (he : e ∈ memberDependencies dependencies x) :
      e ∈ more ∨ e ∈ s.visited := by
    rcases hhandled.2.1 e he with he | he
    · rcases List.mem_cons.1 he with rfl | he
      · exact .inr hd
      · exact .inl he
    · exact .inr he
  exact
    { visited := fun y => by simpa [hstack] using hs.visited y
      nodup := by simpa [hstack] using hs.nodup
      reached := by
        simpa only [List.pairwise_append, List.pairwise_cons, List.forall_mem_cons] using hreached
      pending := by
        simp only [List.forall_mem_append, List.forall_mem_cons]
        exact ⟨hpending.1, hpending.2.1.2, hpending.2.2⟩
      handled := by
        simp only [List.forall_mem_append, List.forall_mem_cons]
        exact ⟨hhandled.1, hremains, hhandled.2.2⟩
      ordered := hs.ordered }

/-- An item that is reached from all that is on the stack is begun. -/
theorem Sound.enter (hs : Sound dependencies s) (hx : x ∉ s.visited)
    (hreach : ∀ v ∈ s.stack, Reaches items dependencies v.item.val x.val) :
    Sound dependencies (s.enter dependencies x) where
  visited y := by
    simp only [Search.enter, List.mem_cons, List.map_cons, hs.visited y]
    exact or_left_comm
  nodup := by
    have hnew : x ∉ s.emitted ++ s.stack.map Visit.item := by
      rwa [List.mem_append, ← hs.visited]
    simpa [Search.enter] using List.nodup_middle.2 (List.nodup_cons.2 ⟨hnew, hs.nodup⟩)
  reached := List.pairwise_cons.2 ⟨hreach, hs.reached⟩
  pending := List.forall_mem_cons.2 ⟨fun _ hd => hd, hs.pending⟩
  handled := List.forall_mem_cons.2
    ⟨fun _ hd => .inl hd, fun v hv d hd => (hs.handled v hv d hd).imp_right (.tail x)⟩
  ordered := hs.ordered

/-- A dependency of the latest item that was not begun before is begun. -/
theorem Sound.descend (hs : Sound dependencies s) (hstack : s.stack = ⟨x, d :: more⟩ :: rest)
    (hd : d ∉ s.visited) :
    Sound dependencies (Search.enter dependencies { s with stack := ⟨x, more⟩ :: rest } d) := by
  have hdepends : Reaches items dependencies x.val d.val :=
    .of_mem (hs.pending ⟨x, d :: more⟩ (by simp [hstack]) d (by simp))
  have hreached := hs.reached
  rw [hstack, List.pairwise_cons] at hreached
  have hentered := hs.enter hd fun v hv => by
    rcases List.mem_cons.1 (hstack ▸ hv) with rfl | hv
    · exact hdepends
    · exact (hreached.1 v hv).trans hdepends
  have hbegun : d ∈ (s.enter dependencies d).visited := by simp [Search.enter]
  exact hentered.skip [⟨d, memberDependencies dependencies d⟩]
    (by simp [Search.enter, hstack]) hbegun

/-! ## A whole search -/

/-- A search ends with nothing on the stack, and all that was begun stays begun. -/
theorem Sound.run (hs : Sound dependencies s) (hrun : s.run dependencies mode = .ok next) :
    Sound dependencies next ∧ next.stack = [] ∧ s.visited ⊆ next.visited := by
  fun_induction Search.run dependencies mode s with
  | case1 s hstack =>
    cases hrun
    exact ⟨hs, hstack, List.Subset.refl _⟩
  | case2 s x rest hstack ih => exact ih (hs.finish hstack) hrun
  | case3 s x d more rest hstack hd hcycle => cases hrun
  | case4 s x d more rest hstack after hd hcycle ih =>
    exact ih (hs.skip [] hstack hd) hrun
  | case5 s x d more rest hstack after hd ih =>
    obtain ⟨hnext, hdone, hsub⟩ := ih (hs.descend hstack hd) hrun
    exact ⟨hnext, hdone, fun y hy => hsub (.tail d hy)⟩

/-- An item that is visited was begun afterwards, whether or not it was before. -/
theorem Sound.visit (hs : Sound dependencies s) (hdone : s.stack = [])
    (hvisit : s.visit dependencies mode x = .ok next) :
    Sound dependencies next ∧ next.stack = [] ∧ x ∈ next.visited ∧ s.visited ⊆ next.visited := by
  unfold Search.visit at hvisit
  split at hvisit
  · next hx =>
    split at hvisit
    · cases hvisit
    · cases hvisit
      exact ⟨hs, hdone, hx, List.Subset.refl _⟩
  · next hx =>
    obtain ⟨hnext, hdone, hsub⟩ := (hs.enter hx (by simp [hdone])).run hvisit
    exact ⟨hnext, hdone, List.cons_subset.1 hsub⟩

/-- A search for several items is one for the first and then one for the others. -/
theorem exists_of_visitAll_cons {roots : List (Member items)}
    (hvisit : (x :: roots).foldlM (Search.visit dependencies mode) s = .ok next) :
    ∃ after, s.visit dependencies mode x = .ok after ∧
      roots.foldlM (Search.visit dependencies mode) after = .ok next := by
  rw [List.foldlM_cons] at hvisit
  cases hx : s.visit dependencies mode x with
  | error e =>
    rw [hx] at hvisit
    cases hvisit
  | ok after =>
    rw [hx] at hvisit
    exact ⟨after, rfl, hvisit⟩

theorem Sound.visitAll (hs : Sound dependencies s) (hdone : s.stack = [])
    {roots : List (Member items)}
    (hvisit : roots.foldlM (Search.visit dependencies mode) s = .ok next) :
    Sound dependencies next ∧ next.stack = [] ∧ roots ⊆ next.visited ∧
      s.visited ⊆ next.visited := by
  induction roots generalizing s with
  | nil =>
    cases hvisit
    exact ⟨hs, hdone, List.nil_subset _, List.Subset.refl _⟩
  | cons x roots ih =>
    obtain ⟨after, hx, hrest⟩ := exists_of_visitAll_cons hvisit
    obtain ⟨hafter, hadone, hbegun, hsub⟩ := hs.visit hdone hx
    obtain ⟨hnext, hndone, hroots, hnsub⟩ := ih hafter hadone hrest
    exact ⟨hnext, hndone, List.cons_subset.2 ⟨hnsub hbegun, hroots⟩,
      List.Subset.trans hsub hnsub⟩

/-! ## Cycles that are tolerated -/

theorem run_lenient (dependencies : α → List α) (s : Search items) :
    ∃ next, s.run dependencies .lenient = .ok next := by
  fun_induction Search.run dependencies .lenient s with
  | case1 s hstack => exact ⟨s, rfl⟩
  | case2 s x rest hstack ih => exact ih
  | case3 s x d more rest hstack hd hcycle => simp [closesCycle] at hcycle
  | case4 s x d more rest hstack after hd hcycle ih => exact ih
  | case5 s x d more rest hstack after hd ih => exact ih

theorem visit_lenient (dependencies : α → List α) (s : Search items) (x : Member items) :
    ∃ next, s.visit dependencies .lenient x = .ok next := by
  unfold Search.visit
  split
  · exact ⟨s, by simp [closesCycle]⟩
  · exact run_lenient dependencies _

theorem visitAll_lenient (dependencies : α → List α) (roots : List (Member items))
    (s : Search items) :
    ∃ next, roots.foldlM (Search.visit dependencies .lenient) s = .ok next := by
  induction roots generalizing s with
  | nil => exact ⟨s, rfl⟩
  | cons x roots ih =>
    obtain ⟨after, hx⟩ := visit_lenient dependencies s x
    obtain ⟨next, hnext⟩ := ih after
    exact ⟨next, by rw [List.foldlM_cons, hx]; exact hnext⟩

end Search

/-! ## The order -/

/-- A search for all items emits each item once. -/
theorem Search.Sound.emitted_nodup {s : Search items} (hs : s.Sound dependencies)
    (hdone : s.stack = []) : (s.emitted.map Subtype.val).Nodup := by
  have hnodup := hs.nodup
  simp only [hdone, List.map_nil, List.append_nil] at hnodup
  exact hnodup.map Subtype.val_injective

theorem Search.Sound.mem_emitted {s : Search items} (hs : s.Sound dependencies)
    (hdone : s.stack = []) (hall : items.attach ⊆ s.visited) (x : Member items) :
    x ∈ s.emitted := by
  have hbegun := hall (List.mem_attach items x)
  rw [hs.visited] at hbegun
  simpa [hdone] using hbegun

/-- What stands before an item in a list without repetitions has the smaller index. -/
theorem idxOf_lt_idxOf {before after : List α} {x d : α} (hnodup : (before ++ x :: after).Nodup)
    (hd : d ∈ before) :
    (before ++ x :: after).idxOf d < (before ++ x :: after).idxOf x := by
  have hx : x ∉ before ++ after := (List.nodup_cons.1 (List.nodup_middle.1 hnodup)).1
  rw [List.mem_append, not_or] at hx
  rw [List.idxOf_append_of_mem hd, List.idxOf_append_of_notMem hx.1, List.idxOf_cons_self]
  exact Nat.lt_add_right 0 (List.idxOf_lt_length_of_mem hd)

/-- What is emitted before an item has the smaller index in the order. -/
theorem Search.Sound.idxOf_lt {s : Search items} (hs : s.Sound dependencies)
    (hdone : s.stack = []) (hall : items.attach ⊆ s.visited) {x d : Member items}
    (hbefore : ∀ before after, s.emitted = before ++ x :: after → d ∈ before) :
    (s.emitted.map Subtype.val).idxOf d.val < (s.emitted.map Subtype.val).idxOf x.val := by
  obtain ⟨before, after, heq⟩ := List.append_of_mem (hs.mem_emitted hdone hall x)
  have hnodup := hs.emitted_nodup hdone
  rw [heq, List.map_append, List.map_cons] at hnodup ⊢
  exact idxOf_lt_idxOf hnodup (List.mem_map_of_mem (hbefore before after heq))

/-- A search for all items emits a dependency before what depends on it, unless the two are in a
cycle. -/
theorem Search.Sound.emitted_before {s : Search items} (hs : s.Sound dependencies)
    (hdone : s.stack = []) (hall : items.attach ⊆ s.visited) {x d : α}
    (hdepends : DependsOn items dependencies x d) (hback : ¬Reaches items dependencies d x) :
    (s.emitted.map Subtype.val).idxOf d < (s.emitted.map Subtype.val).idxOf x := by
  obtain ⟨hx, hd, hmem⟩ := hdepends
  exact hs.idxOf_lt (x := ⟨x, hx⟩) (d := ⟨d, hd⟩) hdone hall fun before after heq =>
    (hs.ordered before _ after heq _ (mem_memberDependencies.2 hmem)).resolve_right hback

/-- Where cycles are tolerated, there is always an order. It holds every item once and nothing else,
and a dependency stands in it before what depends on it, unless the two are in a cycle. -/
theorem sort_lenient (items : List α) (dependencies : α → List α) :
    ∃ order, sort items dependencies .lenient = .ok order ∧ order.Nodup ∧
      (∀ x, x ∈ order ↔ x ∈ items) ∧
      ∀ x d, DependsOn items dependencies x d → ¬Reaches items dependencies d x →
        order.idxOf d < order.idxOf x := by
  obtain ⟨s, hsort⟩ := Search.visitAll_lenient dependencies items.attach .start
  obtain ⟨hs, hdone, hall, -⟩ := Search.Sound.start.visitAll rfl hsort
  refine ⟨s.emitted.map Subtype.val, ?_, hs.emitted_nodup hdone, fun x => ?_, fun x d =>
    hs.emitted_before hdone hall⟩
  · rw [sort, hsort]
  · constructor
    · intro hx
      obtain ⟨y, -, rfl⟩ := List.mem_map.1 hx
      exact y.property
    · exact fun hx => List.mem_map.2 ⟨⟨x, hx⟩, hs.mem_emitted hdone hall ⟨x, hx⟩, rfl⟩

/-- Dependencies of which `1` and `2` are in a cycle, and `7` may be no item. -/
def twoCycle : Nat → List Nat
  | 0 => [1, 7]
  | 1 => [2, 1]
  | _ => [1]

/-- What depends on a cycle and is not in it comes after. -/
theorem sort_lenient_two_cycle :
    DependsOn [0, 1, 2, 0] twoCycle 0 1 ∧ ¬Reaches [0, 1, 2, 0] twoCycle 1 0 ∧
      ∃ order, sort [0, 1, 2, 0] twoCycle .lenient = .ok order ∧ order.idxOf 1 < order.idxOf 0 := by
  have hdepends : DependsOn [0, 1, 2, 0] twoCycle 0 1 := ⟨by decide, by decide, by decide⟩
  have hstays (y : Nat) (h : Reaches [0, 1, 2, 0] twoCycle 1 y) : y ≠ 0 := by
    induction h with
    | refl => decide
    | @tail b c _ hbc hb =>
      obtain ⟨-, -, hc⟩ := hbc
      rintro rfl
      cases b with
      | zero => exact hb rfl
      | succ b => cases b <;> simp [twoCycle] at hc
  have hback : ¬Reaches [0, 1, 2, 0] twoCycle 1 0 := fun h => hstays 0 h rfl
  obtain ⟨order, hsort, -, -, hbefore⟩ := sort_lenient [0, 1, 2, 0] twoCycle
  exact ⟨hdepends, hback, order, hsort, hbefore 0 1 hdepends hback⟩

end RemoteEval.Resource
