import RemoteEval.Resource.Handle
import RemoteEval.Text.Quoted

/-!
# Dependencies first

`sort` orders items so that dependencies stand before what depends on them. It searches in
depth : items are visited in the given order, the dependencies of an item in theirs, and an
item is emitted once all its dependencies are done. The items on the way to the current one
are kept in an explicit list of `Visit`s, so a long chain of dependencies needs no more room
than its items. A dependency that is visited but not emitted closes a cycle.

`orderHandles` orders resources, by their names where their dependencies leave a choice.
-/

namespace RemoteEval.Resource

/-- One of the given items. -/
abbrev Member {α : Type} (items : List α) := { x : α // x ∈ items }

section Search

variable {α : Type} [DecidableEq α] {items : List α}

/-- An item whose dependencies are being visited, with those that remain. -/
structure Visit (items : List α) where
  /-- The item. -/
  item : Member items
  /-- Its dependencies that remain. -/
  pending : List (Member items)

/-- A search in progress. -/
structure Search (items : List α) where
  /-- The items that were begun. -/
  visited : List (Member items)
  /-- The items that are done, in order. -/
  emitted : List (Member items)
  /-- The items begun but not done, the latest first. -/
  stack : List (Visit items)

/-- The dependencies of an item that are items themselves, in order. -/
def memberDependencies (dependencies : α → List α) (x : Member items) : List (Member items) :=
  (dependencies x.val).filterMap fun d => if h : d ∈ items then some ⟨d, h⟩ else none

namespace Search

/-- No item was begun. -/
def start : Search items := ⟨[], [], []⟩

/-- How many items were not begun. -/
def unvisited (s : Search items) : Nat :=
  (items.attach.filter fun x => x ∉ s.visited).length

/-- How much is left to do with the items that were begun. -/
def backlog (s : Search items) : Nat :=
  s.stack.foldr (fun v n => v.pending.length + 1 + n) 0

/-- Begin an item. -/
def enter (dependencies : α → List α) (s : Search items) (x : Member items) : Search items :=
  { s with
    visited := x :: s.visited
    stack := ⟨x, memberDependencies dependencies x⟩ :: s.stack }

/-- Beginning an item that was not begun leaves fewer to begin. -/
theorem unvisited_enter_lt (dependencies : α → List α) (s : Search items) (x : Member items)
    (h : x ∉ s.visited) : (s.enter dependencies x).unvisited < s.unvisited := by
  have shrinks : ∀ l : List (Member items), x ∈ l →
      (l.filter fun y => y ∉ x :: s.visited).length < (l.filter fun y => y ∉ s.visited).length := by
    intro l
    induction l with
    | nil => intro hx; simp at hx
    | cons y rest ih =>
      intro hx
      have mono : (rest.filter fun z => z ∉ x :: s.visited).length ≤
          (rest.filter fun z => z ∉ s.visited).length := by
        simp only [← List.countP_eq_length_filter]
        exact List.countP_mono_left fun z _ hz => by simp at hz ⊢; exact hz.2
      by_cases hy : y = x
      · subst hy
        simp [h] at mono ⊢
        omega
      · have hr : x ∈ rest := by
          rcases List.mem_cons.1 hx with hx | hx
          · exact absurd hx.symm hy
          · exact hx
        have := ih hr
        by_cases hv : y ∈ s.visited <;> simp [hy, hv] at this ⊢ <;> omega
  exact shrinks items.attach (List.mem_attach ..)

/-- Whether an item that was begun before closes a cycle that the mode does not allow. -/
def closesCycle (mode : CycleMode) (s : Search items) (x : Member items) : Bool :=
  mode = .strict && decide (x ∉ s.emitted)

/-- Go on until every item that was begun is done. -/
def run (dependencies : α → List α) (mode : CycleMode) (s : Search items) :
    Except (CyclicDependency α) (Search items) :=
  match _hs : s.stack with
  | [] => .ok s
  | ⟨x, []⟩ :: rest => run dependencies mode { s with emitted := s.emitted ++ [x], stack := rest }
  | ⟨x, d :: more⟩ :: rest =>
    let next := { s with stack := ⟨x, more⟩ :: rest }
    if _h : d ∈ s.visited then
      if s.closesCycle mode d then .error ⟨d.val⟩ else run dependencies mode next
    else run dependencies mode (next.enter dependencies d)
termination_by (s.unvisited, s.backlog)
decreasing_by
  · exact Prod.Lex.right s.unvisited (by simp [backlog, _hs])
  · exact Prod.Lex.right s.unvisited (by simp [backlog, _hs])
  · exact Prod.Lex.left _ _
      (unvisited_enter_lt dependencies { s with stack := ⟨x, more⟩ :: rest } d _h)

/-- Visit an item and all it depends on, unless it was begun before. -/
def visit (dependencies : α → List α) (mode : CycleMode) (s : Search items) (x : Member items) :
    Except (CyclicDependency α) (Search items) :=
  if x ∈ s.visited then
    if s.closesCycle mode x then .error ⟨x.val⟩ else .ok s
  else (s.enter dependencies x).run dependencies mode

end Search

/-- Items with each dependency before what depends on it, as far as cycles allow. -/
def sort (items : List α) (dependencies : α → List α) (mode : CycleMode) :
    Except (CyclicDependency α) (List α) :=
  match items.attach.foldlM (Search.visit dependencies mode) Search.start with
  | .ok s => .ok (s.emitted.map Subtype.val)
  | .error e => .error e

end Search

/-- The text that names the item at which a cycle closed, where `debug` gives the text of an
item. -/
def CyclicDependency.named {α : Type} (debug : α → String) (e : CyclicDependency α) : String :=
  debug e.item

/-! ## Resources -/

/-- What is said of a cycle among names. -/
def CyclicDependency.message (e : CyclicDependency String) : String :=
  "cyclic dependency found at " ++ e.named Text.quoted

/-- The handles whose identity is not that of the handle before, which is `identity` for the
first. -/
def withoutRepeats (identity : String) : List Handle → List Handle
  | [] => []
  | h :: rest =>
    if h.identity = identity then withoutRepeats identity rest
    else h :: withoutRepeats h.identity rest

/-- Of handles next to each other with one identity, the first. -/
def dropRepeats : List Handle → List Handle
  | [] => []
  | h :: rest => h :: withoutRepeats h.identity rest

/-- The handles in the order of their identities, the first of each. -/
def byIdentity (handles : List Handle) : List Handle :=
  dropRepeats (handles.mergeSort fun h k => decide (h.identity ≤ k.identity))

/-- The handle of an identity. -/
def find? (identity : String) (handles : List Handle) : Option Handle :=
  handles.find? fun h => h.identity = identity

/-- The dependencies of an identity among handles. -/
def dependenciesIn (handles : List Handle) (identity : String) : List String :=
  match find? identity handles with
  | some h => h.dependencies
  | none => []

/-- The first handle of each identity, dependencies first. -/
def orderHandles (handles : List Handle) (mode : CycleMode) :
    Except (CyclicDependency String) (List Handle) :=
  let distinct := byIdentity handles
  match sort (distinct.map Handle.identity) (dependenciesIn distinct) mode with
  | .ok ordered => .ok (ordered.filterMap fun identity => find? identity distinct)
  | .error e => .error e

/-- The handles in the order in which they are loaded. -/
def loadOrder (handles : List Handle) : List Handle :=
  match orderHandles handles .lenient with
  | .ok ordered => ordered
  | .error _ => handles

end RemoteEval.Resource
