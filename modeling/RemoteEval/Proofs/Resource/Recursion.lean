import RemoteEval.Proofs.Resource.Cycles

/-!
# The search by recursion

`sortRecursively` orders items as one would say it : to visit an item that is not marked is to mark
it, to visit its dependencies in order and then to append it ; to visit an appended item is to do
nothing, and a marked item that is not appended closes a cycle. `sort` does the same with a loop
over a list of the items on the way. What is left of the dependencies of an item on that list is
what the recursion still has to visit before it comes back to the item (`run_eq_visitAll`), so the
two take the same steps and come to the same order or the same error (`sort_eq_sortRecursively`).

Both come to an end. The recursion marks an item before it descends, and what it comes back with
leaves no more items to mark (`Marks.After`). The loop takes finitely many turns from every state
(`ends_run`).
-/

namespace RemoteEval.Resource

variable {α : Type} [DecidableEq α] {items : List α} {dependencies : α → List α} {mode : CycleMode}

/-! ## The recursion -/

/-- What a search by recursion has come to. -/
structure Marks (items : List α) where
  /-- The items that are marked. -/
  marked : List (Member items)
  /-- The items that are appended, in order. -/
  appended : List (Member items)

namespace Marks

/-- Nothing is marked. -/
def start : Marks items := ⟨[], []⟩

/-- Mark an item. -/
def mark (s : Marks items) (x : Member items) : Marks items :=
  { s with marked := x :: s.marked }

/-- Append an item. -/
def append (s : Marks items) (x : Member items) : Marks items :=
  { s with appended := s.appended ++ [x] }

/-- A search with an explicit list of the items on the way that has come to the same. -/
def search (s : Marks items) (stack : List (Visit items)) : Search items :=
  ⟨s.marked, s.appended, stack⟩

/-- How many items are not marked. -/
def unmarked (s : Marks items) : Nat :=
  (s.search []).unvisited

theorem unmarked_mark_lt (s : Marks items) {x : Member items} (h : x ∉ s.marked) :
    (s.mark x).unmarked < s.unmarked :=
  Search.unvisited_enter_lt (fun _ => []) (s.search []) x h

/-- What a visit comes back with : it leaves no more items to mark than there were. -/
abbrev After (s : Marks items) := { t : Marks items // t.unmarked ≤ s.unmarked }

mutual

/-- Visit an item. -/
def visit (dependencies : α → List α) (mode : CycleMode) (s : Marks items) (x : Member items) :
    Except (CyclicDependency α) s.After :=
  if h : x ∉ s.marked then
    ((s.mark x).visitAll dependencies mode (memberDependencies dependencies x)).map fun t =>
      ⟨t.val.append x, Nat.le_trans t.property (Nat.le_of_lt (s.unmarked_mark_lt h))⟩
  else if x ∈ s.appended ∨ mode = .lenient then .ok ⟨s, Nat.le_refl _⟩
  else .error ⟨x.val⟩
termination_by (s.unmarked, 0)
decreasing_by exact Prod.Lex.left _ _ (s.unmarked_mark_lt h)

/-- Visit items in order. -/
def visitAll (dependencies : α → List α) (mode : CycleMode) (s : Marks items) :
    List (Member items) → Except (CyclicDependency α) s.After
  | [] => .ok ⟨s, Nat.le_refl _⟩
  | x :: rest =>
    (s.visit dependencies mode x).bind fun t =>
      (t.val.visitAll dependencies mode rest).map fun u =>
        ⟨u.val, Nat.le_trans u.property t.property⟩
termination_by xs => (s.unmarked, xs.length + 1)
decreasing_by
  · exact Prod.Lex.right _ (Nat.succ_pos _)
  · rcases Nat.lt_or_eq_of_le t.property with hlt | heq
    · exact Prod.Lex.left _ _ hlt
    · rw [heq]
      exact Prod.Lex.right _ (Nat.lt_succ_self _)

end

end Marks

/-- Items with each dependency before what depends on it, as far as cycles allow, by recursion. -/
def sortRecursively (items : List α) (dependencies : α → List α) (mode : CycleMode) :
    Except (CyclicDependency α) (List α) :=
  (Marks.start.visitAll dependencies mode items.attach).map fun t =>
    t.val.appended.map Subtype.val

/-! ## The loop -/

namespace Search

/-- The loop comes from a search to a result, turn by turn. -/
inductive Ends (dependencies : α → List α) (mode : CycleMode) :
    Search items → Except (CyclicDependency α) (Search items) → Prop
  /-- Nothing is left to do. -/
  | done {s : Search items} (h : s.stack = []) : Ends dependencies mode s (.ok s)
  /-- An item without remaining dependencies is done. -/
  | finish {s : Search items} {x : Member items} {rest : List (Visit items)}
      {r : Except (CyclicDependency α) (Search items)} (h : s.stack = ⟨x, []⟩ :: rest)
      (next : Ends dependencies mode { s with emitted := s.emitted ++ [x], stack := rest } r) :
      Ends dependencies mode s r
  /-- A dependency closes a cycle. -/
  | fail {s : Search items} {x d : Member items} {more : List (Member items)}
      {rest : List (Visit items)} (h : s.stack = ⟨x, d :: more⟩ :: rest) (hd : d ∈ s.visited)
      (hcycle : s.closesCycle mode d = true) : Ends dependencies mode s (.error ⟨d.val⟩)
  /-- A dependency is passed over. -/
  | skip {s : Search items} {x d : Member items} {more : List (Member items)}
      {rest : List (Visit items)} {r : Except (CyclicDependency α) (Search items)}
      (h : s.stack = ⟨x, d :: more⟩ :: rest) (hd : d ∈ s.visited)
      (hcycle : s.closesCycle mode d = false)
      (next : Ends dependencies mode { s with stack := ⟨x, more⟩ :: rest } r) :
      Ends dependencies mode s r
  /-- A dependency is begun. -/
  | descend {s : Search items} {x d : Member items} {more : List (Member items)}
      {rest : List (Visit items)} {r : Except (CyclicDependency α) (Search items)}
      (h : s.stack = ⟨x, d :: more⟩ :: rest) (hd : d ∉ s.visited)
      (next : Ends dependencies mode
        (Search.enter dependencies { s with stack := ⟨x, more⟩ :: rest } d) r) :
      Ends dependencies mode s r

/-- From every state the loop comes to its result in finitely many turns. -/
theorem ends_run (s : Search items) :
    Ends dependencies mode s (s.run dependencies mode) := by
  fun_induction Search.run dependencies mode s with
  | case1 s hstack => exact .done hstack
  | case2 s x rest hstack ih => exact .finish hstack ih
  | case3 s x d more rest hstack hd hcycle => exact .fail hstack hd hcycle
  | case4 s x d more rest hstack after hd hcycle ih =>
    exact .skip hstack hd (Bool.not_eq_true _ ▸ hcycle) ih
  | case5 s x d more rest hstack after hd ih => exact .descend hstack hd ih

theorem run_fail {s : Search items} {x d : Member items} {more : List (Member items)}
    {rest : List (Visit items)} (hstack : s.stack = ⟨x, d :: more⟩ :: rest) (hd : d ∈ s.visited)
    (hcycle : s.closesCycle mode d = true) : s.run dependencies mode = .error ⟨d.val⟩ := by
  rw [Search.run]
  split <;> simp_all

end Search

namespace Marks

/-- A marked item closes a cycle in the loop where the recursion fails. -/
theorem closesCycle_search (s : Marks items) (stack : List (Visit items)) (x : Member items) :
    (s.search stack).closesCycle mode x = !decide (x ∈ s.appended ∨ mode = .lenient) := by
  by_cases hx : x ∈ s.appended <;> cases mode <;> simp [Search.closesCycle, search, hx]

/-! ## Both together -/

mutual

/-- Where a dependency comes next, the loop does what a visit does, and goes on with the
dependencies behind it. -/
theorem run_eq_visit (s : Marks items) (d x : Member items) (more : List (Member items))
    (rest : List (Visit items)) :
    (s.search (⟨x, d :: more⟩ :: rest)).run dependencies mode =
      (s.visit dependencies mode d).bind fun t =>
        (t.val.search (⟨x, more⟩ :: rest)).run dependencies mode := by
  by_cases hd : d ∈ s.marked
  · rw [visit, dif_neg (not_not.2 hd)]
    by_cases hpass : d ∈ s.appended ∨ mode = .lenient
    · rw [if_pos hpass]
      exact Search.run_skip rfl hd (by simp [closesCycle_search, hpass])
    · rw [if_neg hpass]
      exact Search.run_fail rfl hd (by simp [closesCycle_search, hpass])
  · have hmarked := run_eq_visitAll (s.mark d) (memberDependencies dependencies d) d
      (⟨x, more⟩ :: rest)
    rw [Search.run_descend rfl hd, visit, dif_pos hd]
    refine hmarked.trans ?_
    cases (s.mark d).visitAll dependencies mode (memberDependencies dependencies d) with
    | error e => rfl
    | ok t => exact Search.run_finish rfl
termination_by (s.unmarked, 0)
decreasing_by exact Prod.Lex.left _ _ (s.unmarked_mark_lt hd)

/-- What remains of the dependencies of the item on top is what the recursion has to visit before it
comes back to the item. -/
theorem run_eq_visitAll (s : Marks items) (xs : List (Member items)) (x : Member items)
    (rest : List (Visit items)) :
    (s.search (⟨x, xs⟩ :: rest)).run dependencies mode =
      (s.visitAll dependencies mode xs).bind fun t =>
        (t.val.search (⟨x, []⟩ :: rest)).run dependencies mode := by
  cases xs with
  | nil =>
    rw [visitAll]
    rfl
  | cons d more =>
    rw [run_eq_visit s d x more rest, visitAll]
    cases s.visit dependencies mode d with
    | error e => rfl
    | ok t =>
      refine (run_eq_visitAll t.val more x rest).trans ?_
      rw [Except.bind]
      cases t.val.visitAll dependencies mode more <;> rfl
termination_by (s.unmarked, xs.length + 1)
decreasing_by
  · exact Prod.Lex.right _ (Nat.succ_pos _)
  · rcases Nat.lt_or_eq_of_le t.property with hlt | heq
    · exact Prod.Lex.left _ _ hlt
    · rw [heq]
      exact Prod.Lex.right _ (Nat.lt_succ_self _)

end

/-- Between two searches there is nothing on the way. -/
theorem visit_search_eq (s : Marks items) (x : Member items) :
    (s.search []).visit dependencies mode x =
      (s.visit dependencies mode x).map fun t => t.val.search [] := by
  rw [Search.visit, visit]
  change (if x ∈ s.marked then _ else _) = _
  by_cases hx : x ∈ s.marked
  · rw [if_pos hx, dif_neg (not_not.2 hx), closesCycle_search]
    by_cases hpass : x ∈ s.appended ∨ mode = .lenient <;> simp [hpass, Except.map]
  · rw [if_neg hx, dif_pos hx]
    refine (run_eq_visitAll (s.mark x) (memberDependencies dependencies x) x []).trans ?_
    cases (s.mark x).visitAll dependencies mode (memberDependencies dependencies x) with
    | error e => rfl
    | ok t => exact (Search.run_finish rfl).trans (Search.run_done rfl)

theorem visitAll_search_eq (s : Marks items) (xs : List (Member items)) :
    xs.foldlM (Search.visit dependencies mode) (s.search []) =
      (s.visitAll dependencies mode xs).map fun t => t.val.search [] := by
  induction xs generalizing s with
  | nil =>
    rw [visitAll]
    rfl
  | cons x rest ih =>
    rw [List.foldlM_cons, visit_search_eq, visitAll]
    cases s.visit dependencies mode x with
    | error e => rfl
    | ok t =>
      refine (ih t.val).trans ?_
      rw [Except.bind]
      cases t.val.visitAll dependencies mode rest <;> rfl

end Marks

/-- The loop comes to an end from every state, and the sort with the loop comes to the same order or
the same error as the sort by recursion. -/
theorem sort_eq_sortRecursively (items : List α) (dependencies : α → List α) (mode : CycleMode) :
    (∀ s : Search items, s.Ends dependencies mode (s.run dependencies mode)) ∧
      sort items dependencies mode = sortRecursively items dependencies mode := by
  refine ⟨Search.ends_run, ?_⟩
  have hsearch : items.attach.foldlM (Search.visit dependencies mode) Search.start = _ :=
    Marks.visitAll_search_eq .start items.attach
  rw [sort, sortRecursively, hsearch]
  cases Marks.start.visitAll dependencies mode items.attach <;> rfl

end RemoteEval.Resource
