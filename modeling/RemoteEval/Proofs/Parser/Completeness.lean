import RemoteEval.Proofs.Parser.Soundness

/-!
# The parser reads whatever is grammatical

Reading the words of an expression where one is wanted is as good as having it : the verdict on
what follows is the same (`Chain.verdict`). This holds as long as nothing that follows belongs to
the expression (`Ends`), and nothing that is open before it would be closed by its operators
(`Loose`). By recursion on the derivation it gives the verdict on all words of a program
(`judge_eq_program`).
-/

namespace RemoteEval.Script

namespace Grammar

/-- The verdict on words at no place in particular. -/
def verdict (r : Reading) (ws : List Token) : Verdict :=
  r.judge (ws.map Token.unplaced)

theorem verdict_cons {r r' : Reading} {t : Token} (h : r.step t.unplaced = some r')
    (ws : List Token) : verdict r (t :: ws) = verdict r' ws := by
  simp [verdict, Reading.judge, h]

/-! ## What may follow -/

/-- What follows a name that is a variable. -/
def Apart (ws : List Token) : Prop :=
  ∀ m, ws.head? = some (.mark m) → m ≠ .openParen ∧ m ≠ .assign

/-- What follows an expression of the level : nothing that could go on with it. -/
structure Ends (level : Nat) (ws : List Token) : Prop where
  apart : Apart ws
  notIndexed : ∀ m, ws.head? = some (.mark m) → m ≠ .openBracket
  level_le : ∀ m, ws.head? = some (.mark m) → ∀ op, BinaryOp.ofMark? m = some op → op.level ≤ level

theorem Ends.mono {m n : Nat} {ws : List Token} (h : Ends m ws) (hmn : m ≤ n) : Ends n ws :=
  ⟨h.apart, h.notIndexed, fun mk hmk op hop => Nat.le_trans (h.level_le mk hmk op hop) hmn⟩

theorem ends_nil (level : Nat) : Ends level [] := by
  constructor <;> simp [Apart]

/-- A separator or a closing bracket ends every expression. -/
theorem ends_mark {m : Mark} (h : BinaryOp.ofMark? m = none)
    (hm : m ≠ .openParen ∧ m ≠ .assign ∧ m ≠ .openBracket) (level : Nat) (ws : List Token) :
    Ends level (.mark m :: ws) := by
  constructor <;> simp_all [Apart]

/-- An operator ends every expression of its level. -/
theorem ends_operator {m : Mark} {op : BinaryOp} (h : BinaryOp.ofMark? m = some op)
    (ws : List Token) : Ends op.level (.mark m :: ws) := by
  constructor <;> cases m <;> simp_all [Apart, BinaryOp.ofMark?]

theorem apart_openBracket (ws : List Token) : Apart (.mark .openBracket :: ws) := by
  simp [Apart]

/-- Open constructs of which an operator of the level closes none. -/
def Loose (level : Nat) : List Frame → Prop
  | .prefixOp .. :: _ => False
  | .binary op .. :: _ => op.level < level
  | _ => True

theorem Loose.mono {m n : Nat} {frames : List Frame} (h : Loose m frames) (hmn : m ≤ n) :
    Loose n frames := by
  unfold Loose at h ⊢
  split <;> simp_all
  omega

theorem loose_binary {op : BinaryOp} {level : Nat} (h : op.level < level) (left : Expr)
    (offset : Nat) (frames : List Frame) : Loose level (.binary op left offset :: frames) :=
  h

theorem Loose.collapse_eq {level : Nat} {frames : List Frame} (h : Loose level frames)
    (e : Expr) : collapse level e frames = (e, frames) := by
  cases frames with
  | nil => rfl
  | cons f rest =>
    cases f with
    | prefixOp => exact h.elim
    | binary op left offset => simp [collapse, Nat.not_le.2 h]
    | _ => rfl

/-! ## Verdicts on what follows -/

/-- The verdict depends only on what closing operators gives. -/
theorem verdict_whole_congr {p : Program} {frames frames' : List Frame} {e e' : Expr} {n : Nat}
    {ws : List Token} (hw : Ends n ws)
    (h : ∀ l ≤ n, collapse l e frames = collapse l e' frames') :
    verdict ⟨p, .whole frames e⟩ ws = verdict ⟨p, .whole frames' e'⟩ ws := by
  have h0 : settle e frames = settle e' frames' := h 0 (Nat.zero_le n)
  cases ws with
  | nil => simp [verdict, Reading.judge, Reading.program?, h0]
  | cons t ws =>
    suffices hs : Reading.step ⟨p, .whole frames e⟩ t.unplaced =
        Reading.step ⟨p, .whole frames' e'⟩ t.unplaced by
      simp [verdict, Reading.judge, hs]
    cases t with
    | mark m =>
      have hb := hw.notIndexed m rfl
      cases hm : BinaryOp.ofMark? m with
      | some op =>
        have := h _ (hw.level_le m rfl op hm)
        cases m <;>
          simp_all [Reading.step, Reading.stepWhole, Token.unplaced, BinaryOp.ofMark?,
            Reading.goOn]
      | none =>
        cases m <;>
          simp_all [Reading.step, Reading.stepWhole, Token.unplaced, BinaryOp.ofMark?,
            Reading.goOn]
    | _ => rfl

/-- A name that is neither called nor bound is a variable. -/
theorem verdict_named {p : Program} {frames : List Frame} {name : String} {ws : List Token}
    (hw : Apart ws) :
    verdict ⟨p, .named frames name 0⟩ ws = verdict ⟨p, .whole frames (.var name)⟩ ws := by
  cases ws with
  | nil => rfl
  | cons t ws =>
    suffices hs : Reading.step ⟨p, .named frames name 0⟩ t.unplaced =
        Reading.step ⟨p, .whole frames (.var name)⟩ t.unplaced by
      simp [verdict, Reading.judge, hs]
    simp only [Reading.step, Reading.stepNamed]
    split
    · simp_all [Apart, Token.unplaced]
    · simp_all [Apart, Token.unplaced]
    · rfl

/-! ## Verdicts behind expressions -/

/-- Constructs that hold a list of items, with the bracket that closes them and what they are
then. -/
inductive Listing : (List Expr → Frame) → Mark → (List Expr → Expr) → Prop where
  | call (name : String) : Listing (.call name 0) .closeParen fun args => .call name args 0
  | array : Listing .array .closeBracket .array

theorem Listing.loose {frame : List Expr → Frame} {close : Mark} {result : List Expr → Expr}
    (h : Listing frame close result) {level : Nat} {items : List Expr} {frames : List Frame} :
    Loose level (frame items :: frames) := by
  cases h <;> trivial

theorem Listing.ends {frame : List Expr → Frame} {close : Mark} {result : List Expr → Expr}
    (h : Listing frame close result) {level : Nat} (ws : List Token) :
    Ends level (.mark close :: ws) := by
  cases h <;> exact ends_mark rfl (by decide) level ws

theorem verdict_literal {t : Token} {e : Expr} (h : Literal t e) (p : Program)
    (frames : List Frame) (ws : List Token) :
    verdict ⟨p, .wanted frames⟩ (t :: ws) = verdict ⟨p, .whole frames e⟩ ws := by
  cases h <;> exact verdict_cons rfl ws

theorem verdict_prefix {m : Mark} {op : PrefixOp} (h : (m, op) ∈ prefixes) (p : Program)
    (frames : List Frame) (ws : List Token) :
    verdict ⟨p, .wanted frames⟩ (.mark m :: ws) =
      verdict ⟨p, .wanted (.prefixOp op 0 :: frames)⟩ ws := by
  simp only [prefixes, List.mem_cons, List.not_mem_nil, or_false, Prod.mk.injEq] at h
  obtain ⟨rfl, rfl⟩ | ⟨rfl, rfl⟩ := h <;> exact verdict_cons rfl ws

theorem verdict_operator {m : Mark} {op : BinaryOp} (h : BinaryOp.ofMark? m = some op)
    {frames : List Frame} (hf : Loose op.level frames) (p : Program) (e : Expr) (ws : List Token) :
    verdict ⟨p, .whole frames e⟩ (.mark m :: ws) =
      verdict ⟨p, .wanted (.binary op e 0 :: frames)⟩ ws := by
  refine verdict_cons ?_ ws
  have := hf.collapse_eq e
  cases m <;>
    simp_all [Reading.step, Reading.stepWhole, Token.unplaced, BinaryOp.ofMark?, Reading.goOn]

mutual

theorem Atom.verdict {ts : List Token} {e : Expr} (h : Atom ts e) (p : Program)
    (frames : List Frame) {ws : List Token} (hw : Apart ws) :
    Grammar.verdict ⟨p, .wanted frames⟩ (ts ++ ws) = Grammar.verdict ⟨p, .whole frames e⟩ ws := by
  match h with
  | .literal h => exact verdict_literal h p frames ws
  | .var name =>
    rw [List.singleton_append, verdict_cons rfl]
    exact verdict_named hw
  | .call name h =>
    rw [List.cons_append, verdict_cons rfl, List.cons_append, verdict_cons rfl, List.append_assoc]
    exact h.verdict (.call name) p frames [] ws
  | .array h =>
    rw [List.cons_append, verdict_cons rfl, List.append_assoc]
    exact h.verdict .array p frames [] ws
  | .map h =>
    rw [List.cons_append, verdict_cons rfl, List.append_assoc]
    exact h.verdict p frames [] ws
  | .group h =>
    rw [List.cons_append, verdict_cons rfl, List.append_assoc, List.singleton_append,
      h.verdict p (by trivial) (ends_mark rfl (by decide) 1 ws)]
    exact verdict_cons rfl ws

theorem Indexed.verdict {ts : List Token} {e : Expr} (h : Indexed ts e) (p : Program)
    (frames : List Frame) {ws : List Token} (hw : Apart ws) :
    Grammar.verdict ⟨p, .wanted frames⟩ (ts ++ ws) = Grammar.verdict ⟨p, .whole frames e⟩ ws := by
  match h with
  | .atom h => exact h.verdict p frames hw
  | .index h hi =>
    rw [List.append_assoc, List.cons_append, List.append_assoc, List.singleton_append,
      h.verdict p frames (apart_openBracket _), verdict_cons rfl,
      hi.verdict p (by trivial) (ends_mark rfl (by decide) 1 ws)]
    exact verdict_cons rfl ws

theorem Operand.verdict {ts : List Token} {e : Expr} (h : Operand ts e) (p : Program)
    (frames : List Frame) {n : Nat} {ws : List Token} (hw : Ends n ws) :
    Grammar.verdict ⟨p, .wanted frames⟩ (ts ++ ws) = Grammar.verdict ⟨p, .whole frames e⟩ ws := by
  match h with
  | .indexed h => exact h.verdict p frames hw.apart
  | .prefixed hop h =>
    rw [List.cons_append, verdict_prefix hop, h.verdict p _ hw]
    exact verdict_whole_congr hw fun _ _ => by simp [collapse]

theorem Chain.verdict {n : Nat} {ts : List Token} {e : Expr} (h : Chain n ts e) (p : Program)
    {frames : List Frame} (hf : Loose n frames) {ws : List Token} (hw : Ends n ws) :
    Grammar.verdict ⟨p, .wanted frames⟩ (ts ++ ws) = Grammar.verdict ⟨p, .whole frames e⟩ ws := by
  match h with
  | .operand h => exact h.verdict p frames hw
  | .looser h => exact h.verdict p (hf.mono (Nat.le_succ n)) (hw.mono (Nat.le_succ n))
  | .binary hop hl hr =>
    obtain ⟨hm, hn⟩ := mem_operators_iff.1 hop
    have hlt := Nat.lt_succ_of_le (Nat.le_of_eq hn)
    rw [List.append_assoc, List.cons_append, hl.verdict p hf (hn ▸ ends_operator hm _),
      verdict_operator hm (hn ▸ hf),
      hr.verdict p (loose_binary hlt _ _ _) (hw.mono (Nat.le_succ n))]
    exact verdict_whole_congr hw fun l hl => by simp [collapse, hn, hl]

theorem Items.verdict {ts : List Token} {es : List Expr} (h : Items ts es)
    {frame : List Expr → Frame} {close : Mark} {result : List Expr → Expr}
    (hl : Listing frame close result) (p : Program) (frames : List Frame) (before : List Expr)
    (ws : List Token) :
    Grammar.verdict ⟨p, .wanted (frame before :: frames)⟩ (ts ++ .mark close :: ws) =
      Grammar.verdict ⟨p, .whole frames (result (before ++ es))⟩ ws := by
  match h with
  | .nil => cases hl <;> simpa using verdict_cons rfl ws
  | .last h =>
    rw [h.verdict p hl.loose (hl.ends ws)]
    cases hl <;> exact verdict_cons rfl ws
  | .cons (e := e) h hr =>
    have ih := hr.verdict hl p frames (before ++ [e]) ws
    rw [List.append_assoc, List.singleton_append] at ih
    rw [List.append_assoc, List.cons_append,
      h.verdict p hl.loose (ends_mark rfl (by decide) 1 _), ← ih]
    cases hl <;> exact verdict_cons rfl _

theorem Entries.verdict {ts : List Token} {es : List (Expr × Expr)} (h : Entries ts es)
    (p : Program) (frames : List Frame) (before : List (Expr × Expr)) (ws : List Token) :
    Grammar.verdict ⟨p, .wanted (.mapKey before :: frames)⟩ (ts ++ .mark .closeBrace :: ws) =
      Grammar.verdict ⟨p, .whole frames (.map (before ++ es))⟩ ws := by
  match h with
  | .nil => simpa using verdict_cons rfl ws
  | .last hk hv =>
    rw [List.append_assoc, List.cons_append,
      hk.verdict p (by trivial) (ends_mark rfl (by decide) 1 _), verdict_cons rfl,
      hv.verdict p (by trivial) (ends_mark rfl (by decide) 1 _)]
    exact verdict_cons rfl ws
  | .cons (k := k) (v := v) hk hv hr =>
    have ih := hr.verdict p frames (before ++ [(k, v)]) ws
    rw [List.append_assoc, List.singleton_append] at ih
    rw [List.append_assoc, List.cons_append,
      hk.verdict p (by trivial) (ends_mark rfl (by decide) 1 _), verdict_cons rfl,
      List.append_assoc, List.cons_append,
      hv.verdict p (by trivial) (ends_mark rfl (by decide) 1 _), ← ih]
    exact verdict_cons rfl _

end

/-! ## Verdicts on programs -/

/-- A statement may start wherever an operand is wanted and nothing is open. -/
theorem verdict_fresh {p q : Program} {ws : List Token}
    (h : verdict ⟨p, .wanted []⟩ ws = .program q) : verdict ⟨p, .fresh⟩ ws = .program q := by
  cases ws with
  | nil => cases h
  | cons t ws =>
    rw [← h]
    suffices hs : Reading.step ⟨p, .fresh⟩ t.unplaced = Reading.step ⟨p, .wanted []⟩ t.unplaced by
      simp [verdict, Reading.judge, hs]
    cases t with
    | mark m =>
      cases m with
      | semicolon => cases h
      | _ => rfl
    | _ => rfl

/-- Behind a line nothing is open but its statement. -/
theorem Line.verdict {ts : List Token} {s : Statement} (h : Line ts s) :
    ∃ frames e, statement? (settle e frames).1 (settle e frames).2 = some s ∧
      ∀ {p q : Program} {ws : List Token}, Ends 1 ws →
        Grammar.verdict ⟨p, .whole frames e⟩ ws = .program q →
        Grammar.verdict ⟨p, .fresh⟩ (ts ++ ws) = .program q := by
  cases h with
  | @assign name ts e h =>
    refine ⟨[.assignment name], e, rfl, fun hw hq => ?_⟩
    rw [List.cons_append, verdict_cons rfl, List.cons_append, verdict_cons rfl,
      h.verdict _ (by trivial) hw]
    exact hq
  | @bare ts e h =>
    refine ⟨[], e, rfl, fun hw hq => verdict_fresh ?_⟩
    rw [h.verdict _ (by trivial) hw]
    exact hq

theorem Slot.verdict_end {ts : List Token} {q : Program} (h : Slot ts q) (p : Program) :
    verdict ⟨p, .fresh⟩ ts = .program (p ++ q) := by
  cases h with
  | empty => simp [verdict, Reading.judge, Reading.program?]
  | line h =>
    obtain ⟨frames, e, hs, hv⟩ := h.verdict
    simpa using hv (ends_nil 1) (p := p) (by simp [verdict, Reading.judge, Reading.program?, hs])

theorem Slot.verdict_semicolon {ts us : List Token} {p q r : Program} (h : Slot ts q)
    (hr : verdict ⟨p ++ q, .fresh⟩ us = .program r) :
    verdict ⟨p, .fresh⟩ (ts ++ .mark .semicolon :: us) = .program r := by
  cases h with
  | empty => simpa using (verdict_cons rfl us).trans (by simpa using hr)
  | line h =>
    obtain ⟨frames, e, hs, hv⟩ := h.verdict
    refine hv (ends_mark rfl (by decide) 1 us) ((verdict_cons ?_ us).trans hr)
    simp [Reading.step, Reading.stepWhole, Token.unplaced, hs]

theorem Derives.verdict {ts : List Token} {q : Program} (h : Derives ts q) (p : Program) :
    Grammar.verdict ⟨p, .fresh⟩ ts = .program (p ++ q) := by
  induction h generalizing p with
  | slot h => exact h.verdict_end p
  | cons h _ ih => exact h.verdict_semicolon (by rw [ih, List.append_assoc])

/-- The parser returns a program exactly for the words that derive it. -/
theorem judge_eq_program {ws : List Token} {p : Program} :
    judge (ws.map Token.unplaced) = .program p ↔ Derives ws p :=
  ⟨derives_of_judge, fun h => h.verdict []⟩

/-- Words derive one program at most. -/
theorem Derives.unique {ws : List Token} {p q : Program} (hp : Derives ws p) (hq : Derives ws q) :
    p = q := by
  have := (judge_eq_program.2 hp).symm.trans (judge_eq_program.2 hq)
  cases this
  rfl

end Grammar

end RemoteEval.Script
