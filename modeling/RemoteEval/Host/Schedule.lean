import RemoteEval.Host.Connection

/-!
# Commands in one order

What a single evaluator answers to the commands of several connections if it evaluates them in one
order (`Schedule`), and what the frames of a connection ask for.
-/

namespace RemoteEval.Host

open Script (Memory)
open Wire (Frame)

/-- Commands in the order in which they are evaluated, each with the connection it came on. -/
abbrev Schedule := List (Nat × String)

namespace Schedule

/-- The commands of one connection. -/
def on (i : Nat) (s : Schedule) : List String :=
  s.filterMap fun e => if e.1 = i then some e.2 else none

/-- The memory of the evaluator once it has evaluated all commands. -/
def memory (s : Schedule) (m : Memory) : Memory :=
  s.foldl (fun m e => (respond .quiet e.2 m).memory) m

/-- The payloads that answer the commands of one connection. -/
def answers (i : Nat) : Schedule → Memory → List (List UInt8)
  | [], _ => []
  | (j, t) :: rest, m =>
    let r := respond .quiet t m
    (if j = i then r.payloads else []) ++ answers i rest r.memory

section

variable (i j : Nat) (t : String) (s : Schedule) (m : Memory)

@[simp]
theorem on_snoc : on i (s ++ [(j, t)]) = on i s ++ if j = i then [t] else [] := by
  by_cases h : j = i <;> simp [on, h]

@[simp]
theorem memory_snoc : memory (s ++ [(j, t)]) m = (respond .quiet t (memory s m)).memory := by
  simp [memory]

@[simp]
theorem answers_snoc :
    answers i (s ++ [(j, t)]) m =
      answers i s m ++ if j = i then (respond .quiet t (memory s m)).payloads else [] := by
  induction s generalizing m with
  | nil => simp [answers, memory]
  | cons e s ih =>
    obtain ⟨k, u⟩ := e
    simp only [List.cons_append, answers, ih, memory, List.foldl_cons, List.append_assoc]

/-- On one connection by itself, the answers are those to its commands in turn. -/
theorem answers_map_eq (commands : List String) :
    answers i (commands.map fun t => (i, t)) m = Host.answers m commands := by
  induction commands generalizing m with
  | nil => rfl
  | cons t rest ih => simp [answers, Host.answers, ih]

end

end Schedule

/-! ## What frames ask for -/

/-- The command that a frame is, unless it is a control message. -/
def command? (frame : List UInt8) : Option String :=
  match Frame.classify frame with
  | .text t => some t
  | .sentinel _ => none

/-- The commands among frames. -/
def commandsOf (frames : List (List UInt8)) : List String :=
  frames.filterMap command?

/-- How many of some frames ask for the resources. -/
def requests (frames : List (List UInt8)) : Nat :=
  frames.countP fun frame => Frame.classify frame = .sentinel .resources

/-! ## Two queues into one -/

/-- A list holds the elements of two others, those of each in their order. -/
inductive Shuffle {α : Type} : List α → List α → List α → Prop where
  | nil : Shuffle [] [] []
  | left {a : α} {xs ys zs : List α} : Shuffle xs ys zs → Shuffle (a :: xs) ys (a :: zs)
  | right {a : α} {xs ys zs : List α} : Shuffle xs ys zs → Shuffle xs (a :: ys) (a :: zs)

namespace Shuffle

variable {α : Type} {a : α} {xs ys zs : List α}

theorem snoc_left (h : Shuffle xs ys zs) : Shuffle (xs ++ [a]) ys (zs ++ [a]) := by
  induction h with
  | nil => exact .left .nil
  | left _ ih => exact .left ih
  | right _ ih => exact .right ih

theorem snoc_right (h : Shuffle xs ys zs) : Shuffle xs (ys ++ [a]) (zs ++ [a]) := by
  induction h with
  | nil => exact .right .nil
  | left _ ih => exact .left ih
  | right _ ih => exact .right ih

end Shuffle

end RemoteEval.Host
