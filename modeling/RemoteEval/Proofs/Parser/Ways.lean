import RemoteEval.Proofs.Parser.Depth

/-!
# Operators that stay open

An operator in front of an operand is open until the operand is complete, with every bracket in it.
A scan that keeps to this (`Way`) comes out of each operand as it went in, and knows how deep it was
(`Chain.within_iff`). So it finds, before any parsing, which sources are read to programs within the
nesting limit (`depth_le_nestingLimit_iff`) ; not all that are read are
(`not_all_depth_le_nestingLimit`).
-/

namespace RemoteEval.Script

open Grammar

/-! ## The depth of what stands between brackets -/

namespace Expr

variable {sign n limit : Nat}

theorem add_depthItems_le {es : List Expr} :
    n + depthItems sign es ≤ limit ↔ n ≤ limit ∧ ∀ e ∈ es, n + e.depth sign ≤ limit := by
  induction es with
  | nil => simp [depthItems]
  | cons e es ih =>
    rw [List.forall_mem_cons, and_left_comm, ← ih, depthItems]
    omega

theorem add_depthEntries_le {es : List (Expr × Expr)} :
    n + depthEntries sign es ≤ limit ↔
      n ≤ limit ∧ ∀ e ∈ es, n + e.1.depth sign ≤ limit ∧ n + e.2.depth sign ≤ limit := by
  induction es with
  | nil => simp [depthEntries]
  | cons e es ih =>
    rw [List.forall_mem_cons, and_left_comm, ← ih, depthEntries]
    omega

theorem add_depth_array_le {items : List Expr} :
    n + (array items).depth sign ≤ limit ↔
      n + 1 ≤ limit ∧ ∀ e ∈ items, n + 1 + e.depth sign ≤ limit := by
  rw [depth, Nat.add_comm _ 1, ← Nat.add_assoc, add_depthItems_le]

theorem add_depth_map_le {entries : List (Expr × Expr)} :
    n + (map entries).depth sign ≤ limit ↔ n + 1 ≤ limit ∧
      ∀ e ∈ entries, n + 1 + e.1.depth sign ≤ limit ∧ n + 1 + e.2.depth sign ≤ limit := by
  rw [depth, Nat.add_comm _ 1, ← Nat.add_assoc, add_depthEntries_le]

/-- A call counts for its arguments only. -/
theorem add_depth_call_le {name : String} {args : List Expr} {offset : Nat} :
    n + (call name args offset).depth sign ≤ limit ↔
      n ≤ limit ∧ ∀ e ∈ args, n + 1 + e.depth sign ≤ limit := by
  cases args with
  | nil => simp [depth]
  | cons arg args =>
    have harray : (call name (arg :: args) offset).depth sign =
        (array (arg :: args)).depth sign := by
      simp [depth, depthItems]
    rw [harray, add_depth_array_le]
    refine and_congr_left fun hargs => ?_
    have harg := hargs arg List.mem_cons_self
    omega

end Expr

/-! ## Scans of words -/

namespace Way

variable {w : Way} {ts us : List Token} {limit : Nat}

/-- The way to the word behind some words. -/
def after (w : Way) (ts : List Token) : Way := ts.foldl step w

@[simp] theorem after_nil (w : Way) : w.after [] = w := rfl

@[simp] theorem after_cons (w : Way) (t : Token) (ts : List Token) :
    w.after (t :: ts) = (w.step t).after ts := rfl

@[simp] theorem after_append (w : Way) (ts us : List Token) :
    w.after (ts ++ us) = (w.after ts).after us :=
  List.foldl_append

@[simp] theorem within_nil : w.within limit [] := rfl

@[simp] theorem within_cons {t : Token} :
    w.within limit (t :: ts) ↔ w.met t ≤ limit ∧ (w.step t).within limit ts := by
  simp [within]

@[simp] theorem within_append :
    w.within limit (ts ++ us) ↔ w.within limit ts ∧ (w.after ts).within limit us := by
  induction ts generalizing w with
  | nil => simp
  | cons t ts ih => simp [ih, and_assoc]

end Way

namespace Grammar

theorem way_step_of_mem_prefixes {m : Mark} {op : PrefixOp} (h : (m, op) ∈ prefixes)
    (base signs : Nat) (outer : List (Nat × Nat)) :
    (⟨base, signs, outer, true⟩ : Way).step (.mark m) = ⟨base, signs + 1, outer, true⟩ ∧
      (⟨base, signs, outer, true⟩ : Way).met (.mark m) = 0 := by
  simp only [prefixes, List.mem_cons, List.not_mem_nil, or_false, Prod.mk.injEq] at h
  obtain ⟨rfl, -⟩ | ⟨rfl, -⟩ := h <;> exact ⟨rfl, rfl⟩

/-- With a binary operator the operators in front of the operand before it are complete. -/
theorem way_step_operator {level : Nat} {m : Mark} {op : BinaryOp}
    (h : (m, op) ∈ operators level) (base signs : Nat) (outer : List (Nat × Nat)) :
    (⟨base, signs, outer, false⟩ : Way).step (.mark m) = ⟨base, 0, outer, true⟩ ∧
      (⟨base, signs, outer, false⟩ : Way).met (.mark m) = 0 := by
  obtain ⟨hm, -⟩ := mem_operators_iff.1 h
  cases m <;> first | exact ⟨rfl, rfl⟩ | simp [BinaryOp.ofMark?] at hm

/-! ## Out of an operand as into it -/

mutual

theorem Atom.way_after {ts : List Token} {e : Expr} (h : Atom ts e) (base signs : Nat)
    (outer : List (Nat × Nat)) :
    (⟨base, signs, outer, true⟩ : Way).after ts = ⟨base, signs, outer, false⟩ := by
  match h with
  | .literal h => cases h <;> rfl
  | .var name => rfl
  | .call name h =>
    obtain ⟨_, _, hinside⟩ := h.way_after (base + signs + 1) ((base, signs) :: outer)
    simp [Way.step, Way.enter, Way.leave, Way.here, hinside]
  | .array h =>
    obtain ⟨_, _, hinside⟩ := h.way_after (base + signs + 1) ((base, signs) :: outer)
    simp [Way.step, Way.enter, Way.leave, Way.here, hinside]
  | .map h =>
    obtain ⟨_, _, hinside⟩ := h.way_after (base + signs + 1) ((base, signs) :: outer)
    simp [Way.step, Way.enter, Way.leave, Way.here, hinside]
  | .group h =>
    obtain ⟨_, hinside⟩ := h.way_after (base + signs) ((base, signs) :: outer)
    simp [Way.step, Way.enter, Way.leave, Way.here, hinside]

theorem Indexed.way_after {ts : List Token} {e : Expr} (h : Indexed ts e) (base signs : Nat)
    (outer : List (Nat × Nat)) :
    (⟨base, signs, outer, true⟩ : Way).after ts = ⟨base, signs, outer, false⟩ := by
  match h with
  | .atom h => exact h.way_after base signs outer
  | .index h hi =>
    obtain ⟨_, hinside⟩ := hi.way_after (base + signs + 1) ((base, signs) :: outer)
    simp [Way.step, Way.enter, Way.leave, Way.here, h.way_after, hinside]

theorem Operand.way_after {ts : List Token} {e : Expr} (h : Operand ts e) (base signs : Nat)
    (outer : List (Nat × Nat)) :
    ∃ signs', (⟨base, signs, outer, true⟩ : Way).after ts = ⟨base, signs', outer, false⟩ := by
  match h with
  | .indexed h => exact ⟨signs, h.way_after base signs outer⟩
  | .prefixed hop h =>
    rw [Way.after_cons, (way_step_of_mem_prefixes hop base signs outer).1]
    exact h.way_after base (signs + 1) outer

theorem Chain.way_after {level : Nat} {ts : List Token} {e : Expr} (h : Chain level ts e)
    (base : Nat) (outer : List (Nat × Nat)) :
    ∃ signs, (⟨base, 0, outer, true⟩ : Way).after ts = ⟨base, signs, outer, false⟩ := by
  match h with
  | .operand h => exact h.way_after base 0 outer
  | .looser h => exact h.way_after base outer
  | .binary hop hl hr =>
    obtain ⟨signs, hleft⟩ := hl.way_after base outer
    rw [Way.after_append, hleft, Way.after_cons, (way_step_operator hop base signs outer).1]
    exact hr.way_after base outer

theorem Items.way_after {ts : List Token} {es : List Expr} (h : Items ts es) (base : Nat)
    (outer : List (Nat × Nat)) :
    ∃ signs wanted, (⟨base, 0, outer, true⟩ : Way).after ts = ⟨base, signs, outer, wanted⟩ := by
  match h with
  | .nil => exact ⟨0, true, rfl⟩
  | .last h =>
    obtain ⟨signs, hafter⟩ := h.way_after base outer
    exact ⟨signs, false, hafter⟩
  | .cons h hr =>
    obtain ⟨_, hafter⟩ := h.way_after base outer
    rw [Way.after_append, hafter]
    exact hr.way_after base outer

theorem Entries.way_after {ts : List Token} {es : List (Expr × Expr)} (h : Entries ts es)
    (base : Nat) (outer : List (Nat × Nat)) :
    ∃ signs wanted, (⟨base, 0, outer, true⟩ : Way).after ts = ⟨base, signs, outer, wanted⟩ := by
  match h with
  | .nil => exact ⟨0, true, rfl⟩
  | .last hk hv =>
    obtain ⟨_, hkey⟩ := hk.way_after base outer
    obtain ⟨signs, hvalue⟩ := hv.way_after base outer
    exact ⟨signs, false, by simp [Way.step, hkey, hvalue]⟩
  | .cons hk hv hr =>
    obtain ⟨_, hkey⟩ := hk.way_after base outer
    obtain ⟨_, hvalue⟩ := hv.way_after base outer
    obtain ⟨signs, wanted, hrest⟩ := hr.way_after base outer
    exact ⟨signs, wanted, by simp [Way.step, hkey, hvalue, hrest]⟩

end

/-! ## The depth of an operand -/

mutual

theorem Atom.within_iff {ts : List Token} {e : Expr} (h : Atom ts e) (limit base signs : Nat)
    (outer : List (Nat × Nat)) :
    (⟨base, signs, outer, true⟩ : Way).within limit ts ↔ base + signs + e.depth 1 ≤ limit := by
  match h with
  | .literal h => cases h <;> simp [Way.met, Way.here, Expr.depth]
  | .var name => simp [Way.met, Way.here, Expr.depth]
  | .call name h =>
    have hargs := h.within_iff limit (base + signs + 1) ((base, signs) :: outer)
    rw [Expr.add_depth_call_le]
    simp [Way.met, Way.step, Way.enter, Way.here, hargs]
  | .array h =>
    have hitems := h.within_iff limit (base + signs + 1) ((base, signs) :: outer)
    rw [Expr.add_depth_array_le]
    simp [Way.met, Way.step, Way.enter, Way.here, hitems]
  | .map h =>
    have hentries := h.within_iff limit (base + signs + 1) ((base, signs) :: outer)
    rw [Expr.add_depth_map_le]
    simp [Way.met, Way.step, Way.enter, Way.here, hentries]
  | .group h =>
    have he := h.within_iff limit (base + signs) ((base, signs) :: outer)
    simp [Way.met, Way.step, Way.enter, Way.here, he]

theorem Indexed.within_iff {ts : List Token} {e : Expr} (h : Indexed ts e)
    (limit base signs : Nat) (outer : List (Nat × Nat)) :
    (⟨base, signs, outer, true⟩ : Way).within limit ts ↔ base + signs + e.depth 1 ≤ limit := by
  match h with
  | .atom h => exact h.within_iff limit base signs outer
  | .index h hi =>
    have htarget := h.within_iff limit base signs outer
    have hindex := hi.within_iff limit (base + signs + 1) ((base, signs) :: outer)
    have hafter := h.way_after base signs outer
    simp only [Way.within_append, Way.within_cons, Way.within_nil, hafter, Way.step, Way.enter,
      Way.here, Way.met, htarget, hindex, Expr.depth, Nat.zero_le, and_true]
    omega

theorem Operand.within_iff {ts : List Token} {e : Expr} (h : Operand ts e)
    (limit base signs : Nat) (outer : List (Nat × Nat)) :
    (⟨base, signs, outer, true⟩ : Way).within limit ts ↔ base + signs + e.depth 1 ≤ limit := by
  match h with
  | .indexed h => exact h.within_iff limit base signs outer
  | .prefixed hop h =>
    obtain ⟨hstep, hmet⟩ := way_step_of_mem_prefixes hop base signs outer
    have he := h.within_iff limit base (signs + 1) outer
    simp only [Way.within_cons, hstep, hmet, he, Expr.depth]
    omega

theorem Chain.within_iff {level : Nat} {ts : List Token} {e : Expr} (h : Chain level ts e)
    (limit base : Nat) (outer : List (Nat × Nat)) :
    (⟨base, 0, outer, true⟩ : Way).within limit ts ↔ base + e.depth 1 ≤ limit := by
  match h with
  | .operand h => exact h.within_iff limit base 0 outer
  | .looser h => exact h.within_iff limit base outer
  | .binary hop hl hr =>
    obtain ⟨signs, hafter⟩ := hl.way_after base outer
    obtain ⟨hstep, hmet⟩ := way_step_operator hop base signs outer
    have hleft := hl.within_iff limit base outer
    have hright := hr.within_iff limit base outer
    simp only [Way.within_append, Way.within_cons, hafter, hstep, hmet, hleft, hright, Expr.depth]
    omega

theorem Items.within_iff {ts : List Token} {es : List Expr} (h : Items ts es) (limit base : Nat)
    (outer : List (Nat × Nat)) :
    (⟨base, 0, outer, true⟩ : Way).within limit ts ↔ ∀ e ∈ es, base + e.depth 1 ≤ limit := by
  match h with
  | .nil => simp
  | .last h => simpa using h.within_iff limit base outer
  | .cons h hr =>
    obtain ⟨signs, hafter⟩ := h.way_after base outer
    have he := h.within_iff limit base outer
    have hrest := hr.within_iff limit base outer
    simp [Way.met, Way.step, hafter, he, hrest]

theorem Entries.within_iff {ts : List Token} {es : List (Expr × Expr)} (h : Entries ts es)
    (limit base : Nat) (outer : List (Nat × Nat)) :
    (⟨base, 0, outer, true⟩ : Way).within limit ts ↔
      ∀ e ∈ es, base + e.1.depth 1 ≤ limit ∧ base + e.2.depth 1 ≤ limit := by
  match h with
  | .nil => simp
  | .last hk hv =>
    obtain ⟨signs, hafter⟩ := hk.way_after base outer
    have hkey := hk.within_iff limit base outer
    have hvalue := hv.within_iff limit base outer
    simp [Way.met, Way.step, hafter, hkey, hvalue]
  | .cons hk hv hr =>
    obtain ⟨signs, hkafter⟩ := hk.way_after base outer
    obtain ⟨signs', hvafter⟩ := hv.way_after base outer
    have hkey := hk.within_iff limit base outer
    have hvalue := hv.within_iff limit base outer
    have hrest := hr.within_iff limit base outer
    simp [Way.met, Way.step, hkafter, hvafter, hkey, hvalue, hrest, and_assoc]

end

/-! ## Programs -/

theorem Line.way_after {ts : List Token} {s : Statement} (h : Line ts s) :
    ∃ signs, Way.start.after ts = ⟨0, signs, [], false⟩ := by
  cases h with
  | assign name h => exact h.way_after 0 []
  | bare h => exact h.way_after 0 []

theorem Line.within_iff {ts : List Token} {s : Statement} (h : Line ts s) (limit : Nat) :
    Way.start.within limit ts ↔ s.depth 1 ≤ limit := by
  cases h with
  | assign name h =>
    have he := h.within_iff limit 0 []
    simpa [Way.start, Way.met, Way.step, Way.here, Statement.depth] using he
  | bare h =>
    have he := h.within_iff limit 0 []
    simpa [Way.start, Statement.depth] using he

theorem Slot.way_after {ts : List Token} {p : Program} (h : Slot ts p) :
    ∃ signs wanted, Way.start.after ts = ⟨0, signs, [], wanted⟩ := by
  cases h with
  | empty => exact ⟨0, true, rfl⟩
  | line h =>
    obtain ⟨signs, hafter⟩ := h.way_after
    exact ⟨signs, false, hafter⟩

theorem Slot.within_iff {ts : List Token} {p : Program} (h : Slot ts p) (limit : Nat) :
    Way.start.within limit ts ↔ ∀ s ∈ p, s.depth 1 ≤ limit := by
  cases h with
  | empty => simp
  | line h => simpa using h.within_iff limit

theorem Derives.within_iff {ts : List Token} {p : Program} (h : Derives ts p) (limit : Nat) :
    Way.start.within limit ts ↔ ∀ s ∈ p, s.depth 1 ≤ limit := by
  induction h with
  | slot h => exact h.within_iff limit
  | cons h _ ih =>
    obtain ⟨signs, wanted, hafter⟩ := h.way_after
    have hslot := h.within_iff limit
    -- A separator leads back to the start.
    have hrest : ((⟨0, signs, [], wanted⟩ : Way).step (.mark .semicolon)) = .start := rfl
    simp [hafter, hslot, hrest, ih, Way.met, or_imp, forall_and]

end Grammar

/-- A program that is read is within the nesting limit, prefix operators included, if and only if
its words are, where the operators in front of a bracket count for as long as it is open. -/
theorem depth_le_nestingLimit_iff {source : List Char} {tokens : List (Placed Token)} {p : Program}
    (ht : tokenize source = .ok tokens) (hp : parse source = .ok p) :
    (∀ s ∈ p, s.depth 1 ≤ nestingLimit) ↔
      Way.start.within nestingLimit (tokens.map Placed.item) := by
  obtain ⟨-, hd⟩ := derives_of_parse ht hp
  rw [hd.within_iff]
  simp only [Program.unplaced, List.forall_mem_map, Statement.depth_unplaced]

/-- Signs in front of brackets and behind them. -/
theorem depth_le_nestingLimit_signs :
    ∃ tokens p, tokenize "-[!a[-1]]".toList = .ok tokens ∧ parse "-[!a[-1]]".toList = .ok p ∧
      ∀ s ∈ p, s.depth 1 ≤ nestingLimit := by
  have ht : tokenize "-[!a[-1]]".toList = .ok
      [⟨.mark .minus, 0, 1⟩, ⟨.mark .openBracket, 1, 2⟩, ⟨.mark .bang, 2, 3⟩, ⟨.name "a", 3, 4⟩,
        ⟨.mark .openBracket, 4, 5⟩, ⟨.mark .minus, 5, 6⟩, ⟨.int 1, 6, 7⟩,
        ⟨.mark .closeBracket, 7, 8⟩, ⟨.mark .closeBracket, 8, 9⟩] := by cbv
  have hp : parse "-[!a[-1]]".toList = .ok [.bare (.unary .neg (.array
      [.unary .not (.index (.var "a") (.unary .neg (.int 1) 5) 4) 2]) 0)] := rfl
  exact ⟨_, _, ht, hp, (depth_le_nestingLimit_iff ht hp).2 (by decide)⟩

/-- Operators in front of a bracket and behind it, thirty-three each time. -/
def signsTwice : List Char :=
  List.replicate 33 '-' ++ '(' :: List.replicate 33 '-' ++ ['1', ')']

/-- The signs on both sides of the bracket are on one way to a leaf. -/
theorem not_all_depth_le_nestingLimit :
    ¬∀ source p, parse source = .ok p → ∀ s ∈ p, s.depth 1 ≤ nestingLimit := by
  intro h
  have hdeep : (match parse signsTwice with
    | .ok p => p.any fun s => nestingLimit < s.depth 1
    | .error _ => false) = true := by
    decide +kernel
  cases hp : parse signsTwice with
  | error r =>
    rw [hp] at hdeep
    cases hdeep
  | ok p =>
    rw [hp] at hdeep
    obtain ⟨s, hs, hlt⟩ := List.any_eq_true.1 hdeep
    exact Nat.not_le.2 (of_decide_eq_true hlt) (h _ p hp s hs)

end RemoteEval.Script
