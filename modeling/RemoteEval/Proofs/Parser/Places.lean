import RemoteEval.Proofs.Parser.Completeness
import RemoteEval.Proofs.Script.Offsets

/-!
# Places do not decide

Where tokens stand shows in the offsets of what is read, and nowhere else : tokens at other places
are read as the same program at other places (`Reading.step_moved`, `Reading.judge_moved`). So every
offset of a program is the start of a token (`offsets_subset_of_judge`), and a reading with every
offset zero takes the same words at no place in particular (`Reading.step_unplaced`).
-/

namespace RemoteEval.Script

/-! ## Constructs at other places -/

section Moved

variable (move : Nat → Nat)

/-- A construct with every offset moved. -/
def Frame.moved : Frame → Frame
  | .assignment name => .assignment name
  | .group => .group
  | .call name offset args => .call name (move offset) (Expr.movedItems move args)
  | .array items => .array (Expr.movedItems move items)
  | .mapKey entries => .mapKey (Expr.movedEntries move entries)
  | .mapValue entries key => .mapValue (Expr.movedEntries move entries) (key.moved move)
  | .index target offset => .index (target.moved move) (move offset)
  | .prefixOp op offset => .prefixOp op (move offset)
  | .binary op left offset => .binary op (left.moved move) (move offset)

/-- A stage with every offset moved. -/
def Stage.moved : Stage → Stage
  | .fresh => .fresh
  | .wanted frames => .wanted (frames.map (Frame.moved move))
  | .named frames name offset => .named (frames.map (Frame.moved move)) name (move offset)
  | .whole frames e => .whole (frames.map (Frame.moved move)) (e.moved move)

/-- A reading with every offset moved. -/
def Reading.moved (r : Reading) : Reading :=
  ⟨r.finished.moved move, r.stage.moved move⟩

@[simp] theorem Expr.movedItems_snoc (es : List Expr) (e : Expr) :
    Expr.movedItems move (es ++ [e]) = Expr.movedItems move es ++ [e.moved move] := by
  induction es with
  | nil => rfl
  | cons _ _ ih => simp [Expr.movedItems, ih]

@[simp] theorem Expr.movedEntries_snoc (es : List (Expr × Expr)) (k v : Expr) :
    Expr.movedEntries move (es ++ [(k, v)]) =
      Expr.movedEntries move es ++ [(k.moved move, v.moved move)] := by
  induction es with
  | nil => rfl
  | cons _ _ ih => simp [Expr.movedEntries, ih]

@[simp] theorem Program.moved_snoc (p : Program) (s : Statement) :
    Program.moved move (p ++ [s]) = p.moved move ++ [s.moved move] := by
  simp [Program.moved]

/-! ## Steps -/

theorem collapse_moved (level : Nat) (e : Expr) (frames : List Frame) :
    collapse level (e.moved move) (frames.map (Frame.moved move)) =
      ((collapse level e frames).1.moved move,
        (collapse level e frames).2.map (Frame.moved move)) := by
  induction frames generalizing e with
  | nil => rfl
  | cons f rest ih =>
    cases f with
    | prefixOp op offset => exact ih (.unary op e offset)
    | binary op left offset =>
      by_cases h : level ≤ op.level
      · simpa [collapse, Frame.moved, h, Expr.moved] using ih (.binary op left e offset)
      · simp [collapse, Frame.moved, h]
    | _ => rfl

theorem settle_moved (e : Expr) (frames : List Frame) :
    settle (e.moved move) (frames.map (Frame.moved move)) =
      ((settle e frames).1.moved move, (settle e frames).2.map (Frame.moved move)) :=
  collapse_moved move 0 e frames

theorem beginOperand_moved (frames : List Frame) (t : Placed Token) (stop : Nat) :
    beginOperand (frames.map (Frame.moved move)) ⟨t.item, move t.start, stop⟩ =
      (beginOperand frames t).map (Stage.moved move) := by
  unfold beginOperand
  cases t.item with
  | mark m => cases m <;> rfl
  | _ => rfl

theorem closeList_moved (frames : List Frame) (m : Mark) :
    closeList? (frames.map (Frame.moved move)) m =
      (closeList? frames m).map (Stage.moved move) := by
  cases frames with
  | nil => rfl
  | cons f rest => cases f <;> cases m <;> rfl

theorem stepWanted_moved (frames : List Frame) (t : Placed Token) (stop : Nat) :
    stepWanted (frames.map (Frame.moved move)) ⟨t.item, move t.start, stop⟩ =
      (stepWanted frames t).map (Stage.moved move) := by
  simp only [stepWanted, beginOperand_moved]
  cases beginOperand frames t with
  | some s => rfl
  | none =>
    cases t.item with
    | mark m => exact closeList_moved move frames m
    | _ => rfl

theorem stepBracket_moved (e : Expr) (frames : List Frame) (m : Mark) :
    stepBracket (e.moved move) (frames.map (Frame.moved move)) m =
      (stepBracket e frames m).map (Stage.moved move) := by
  cases frames with
  | nil => rfl
  | cons f rest =>
    cases f <;> cases m <;> simp [stepBracket, Frame.moved, Stage.moved, Expr.moved]

theorem statement_moved (e : Expr) (frames : List Frame) :
    statement? (e.moved move) (frames.map (Frame.moved move)) =
      (statement? e frames).map (Statement.moved move) := by
  match frames with
  | [] => rfl
  | [f] => cases f <;> rfl
  | f :: g :: rest => cases f <;> rfl

namespace Reading

/-- The statement that ends here, with every offset moved. -/
theorem statement_settle_moved (e : Expr) (frames : List Frame) :
    statement? (settle (e.moved move) (frames.map (Frame.moved move))).1
        (settle (e.moved move) (frames.map (Frame.moved move))).2 =
      (statement? (settle e frames).1 (settle e frames).2).map (Statement.moved move) := by
  rw [settle_moved]
  exact statement_moved move _ _

theorem stepWhole_moved (r : Reading) (frames : List Frame) (e : Expr) (t : Placed Token)
    (stop : Nat) :
    (r.moved move).stepWhole (frames.map (Frame.moved move)) (e.moved move)
        ⟨t.item, move t.start, stop⟩ =
      (r.stepWhole frames e t).map (Reading.moved move) := by
  simp only [stepWhole]
  split
  · rfl
  · rw [statement_settle_moved]
    cases statement? (settle e frames).1 (settle e frames).2 with
    | none => rfl
    | some s => simp [Reading.moved, Stage.moved]
  · split
    · rw [collapse_moved]
      rfl
    · rw [settle_moved, stepBracket_moved]
      cases stepBracket (settle e frames).1 (settle e frames).2 _ <;> rfl
  · rfl

theorem stepNamed_moved (r : Reading) (frames : List Frame) (name : String) (offset : Nat)
    (t : Placed Token) (stop : Nat) :
    (r.moved move).stepNamed (frames.map (Frame.moved move)) name (move offset)
        ⟨t.item, move t.start, stop⟩ =
      (r.stepNamed frames name offset t).map (Reading.moved move) := by
  have hw := stepWhole_moved move r frames (.var name) t stop
  obtain ⟨t, start, _⟩ := t
  cases t with
  | mark m =>
    cases m with
    | openParen => cases frames <;> rfl
    | assign =>
      cases frames with
      | nil => rfl
      | cons => exact hw
    | _ => cases frames <;> exact hw
  | _ => cases frames <;> exact hw

/-- A reading with every offset moved goes on with a token where it is moved to. -/
theorem step_moved (r : Reading) (t : Placed Token) (stop : Nat) :
    (r.moved move).step ⟨t.item, move t.start, stop⟩ = (r.step t).map (Reading.moved move) := by
  obtain ⟨finished, stage⟩ := r
  cases stage with
  | fresh =>
    have hb := beginOperand_moved move [] t stop
    simp only [step, Reading.moved, Stage.moved]
    split
    · rfl
    · rw [List.map_nil] at hb
      rw [goOn, goOn, hb, Option.map_map, Option.map_map]
      rfl
  | wanted frames =>
    have hw := stepWanted_moved move frames t stop
    simp only [step, Reading.moved, Stage.moved]
    rw [goOn, goOn, hw, Option.map_map, Option.map_map]
    rfl
  | named frames name offset => exact stepNamed_moved move _ frames name offset t stop
  | whole frames e => exact stepWhole_moved move _ frames e t stop

theorem program_moved (r : Reading) :
    (r.moved move).program? = r.program?.map (Program.moved move) := by
  obtain ⟨finished, stage⟩ := r
  have last : ∀ frames e,
      (statement? (settle (e.moved move) (frames.map (Frame.moved move))).1
          (settle (e.moved move) (frames.map (Frame.moved move))).2).map
          (fun s => Program.moved move finished ++ [s]) =
        ((statement? (settle e frames).1 (settle e frames).2).map
          fun s => finished ++ [s]).map (Program.moved move) := by
    intro frames e
    rw [statement_settle_moved]
    cases statement? (settle e frames).1 (settle e frames).2 <;> simp
  cases stage with
  | fresh => rfl
  | wanted => rfl
  | named frames name => exact last frames (.var name)
  | whole frames e => exact last frames e

/-- Tokens that start at other places are read as the same program at other places. -/
theorem judge_moved {r : Reading} {tokens : List (Placed Token)} {p : Program}
    (h : r.judge tokens = .program p) (stop : Placed Token → Nat) :
    (r.moved move).judge (tokens.map fun t => ⟨t.item, move t.start, stop t⟩) =
      .program (p.moved move) := by
  induction tokens generalizing r with
  | nil =>
    have hp := r.program_moved move
    rw [judge] at h
    split at h <;> cases h
    next heq =>
    rw [heq] at hp
    rw [List.map_nil, judge, hp]
    rfl
  | cons t rest ih =>
    have hs := r.step_moved move t (stop t)
    rw [judge] at h
    split at h
    · next next heq =>
      rw [heq] at hs
      rw [List.map_cons, judge, hs]
      exact ih h
    · cases h

end Reading

end Moved

/-- Every offset of a program is the start of a token. A move that leaves the starts of the tokens
alone and moves everything else leaves what is read from them alone, so nothing in it moves. -/
theorem offsets_subset_of_judge {tokens : List (Placed Token)} {p : Program}
    (h : judge tokens = .program p) :
    p.flatMap Statement.offsets ⊆ tokens.map Placed.start := by
  let move (offset : Nat) : Nat :=
    if offset ∈ tokens.map Placed.start then offset else offset + 1
  have hmoved := Reading.judge_moved move (r := .start) h Placed.stop
  have htokens : tokens.map (fun t => ⟨t.item, move t.start, t.stop⟩) = tokens := by
    refine (List.map_congr_left fun t ht => ?_).trans (List.map_id tokens)
    have hstart : move t.start = t.start := if_pos (List.mem_map_of_mem ht)
    rw [hstart, id]
  rw [htokens, show Reading.start.moved move = .start from rfl] at hmoved
  have hfixed : p.moved move = p := Verdict.program.inj (hmoved.symm.trans h)
  intro offset hoffset
  refine Decidable.byContradiction fun hnot => ?_
  have hmove : move offset = offset + 1 := if_neg hnot
  have hsame := Program.fixed_of_moved_eq hfixed offset hoffset
  omega

/-! ## No place in particular -/

/-- A construct with every offset zero. -/
def Frame.unplaced : Frame → Frame
  | .assignment name => .assignment name
  | .group => .group
  | .call name _ args => .call name 0 (Expr.unplacedItems args)
  | .array items => .array (Expr.unplacedItems items)
  | .mapKey entries => .mapKey (Expr.unplacedEntries entries)
  | .mapValue entries key => .mapValue (Expr.unplacedEntries entries) key.unplaced
  | .index target _ => .index target.unplaced 0
  | .prefixOp op _ => .prefixOp op 0
  | .binary op left _ => .binary op left.unplaced 0

/-- A stage with every offset zero. -/
def Stage.unplaced : Stage → Stage
  | .fresh => .fresh
  | .wanted frames => .wanted (frames.map Frame.unplaced)
  | .named frames name _ => .named (frames.map Frame.unplaced) name 0
  | .whole frames e => .whole (frames.map Frame.unplaced) e.unplaced

/-- A reading with every offset zero. -/
def Reading.unplaced (r : Reading) : Reading :=
  ⟨r.finished.unplaced, r.stage.unplaced⟩

theorem Frame.moved_zero (f : Frame) : f.moved (fun _ => 0) = f.unplaced := by
  cases f <;>
    simp only [Frame.moved, Frame.unplaced, Expr.moved_zero, Expr.movedItems_zero,
      Expr.movedEntries_zero]

theorem Stage.moved_zero (s : Stage) : s.moved (fun _ => 0) = s.unplaced := by
  cases s <;> simp only [Stage.moved, Stage.unplaced, Expr.moved_zero, funext Frame.moved_zero]

theorem Reading.moved_zero (r : Reading) : r.moved (fun _ => 0) = r.unplaced := by
  rw [Reading.moved, Reading.unplaced, Program.moved_zero, Stage.moved_zero]

namespace Reading

/-- A reading with every offset zero goes on with the word alone. -/
theorem step_unplaced (r : Reading) (t : Placed Token) :
    r.unplaced.step t.item.unplaced = (r.step t).map Reading.unplaced := by
  rw [← moved_zero, ← funext moved_zero]
  exact step_moved (fun _ => 0) r t 0

theorem program_unplaced (r : Reading) :
    r.unplaced.program? = r.program?.map Program.unplaced := by
  rw [← moved_zero, ← funext Program.moved_zero]
  exact program_moved (fun _ => 0) r

end Reading

end RemoteEval.Script
