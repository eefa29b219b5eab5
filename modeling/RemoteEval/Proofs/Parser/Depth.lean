import RemoteEval.Proofs.Parser.Recognition
import RemoteEval.Script.Depth

/-!
# What the nesting limit allows

The limit is on the brackets that are open and the operators just before a token. An operand
behind its operators may open a bracket, and behind the bracket the count of operators starts
over, so that on the way to a leaf the operators in front of each bracket add up (`room`).

What stays within the limit (`Nesting.Fits`) is no deeper than there is room for : first for each
rule of the grammar (`Chain.depth_le`), then for whole sources (`depth_le_of_parse`).
-/

namespace RemoteEval.Script

/-! ## What is open after words -/

namespace Nesting

variable {n : Nesting} {ts us : List Token}

/-- What is open after some words. -/
def after (n : Nesting) (ts : List Token) : Nesting := ts.foldl step n

/-- No word exceeds the limit. -/
def Fits (n : Nesting) : List Token → Prop
  | [] => True
  | t :: ts => (n.step t).total ≤ nestingLimit ∧ (n.step t).Fits ts

@[simp] theorem after_nil (n : Nesting) : n.after [] = n := rfl

@[simp] theorem after_cons (n : Nesting) (t : Token) (ts : List Token) :
    n.after (t :: ts) = (n.step t).after ts := rfl

@[simp] theorem after_append (n : Nesting) (ts us : List Token) :
    n.after (ts ++ us) = (n.after ts).after us :=
  List.foldl_append

@[simp] theorem fits_nil (n : Nesting) : n.Fits [] := trivial

@[simp] theorem fits_cons {t : Token} :
    n.Fits (t :: ts) ↔ (n.step t).total ≤ nestingLimit ∧ (n.step t).Fits ts := Iff.rfl

@[simp] theorem fits_append : n.Fits (ts ++ us) ↔ n.Fits ts ∧ (n.after ts).Fits us := by
  induction ts generalizing n with
  | nil => simp
  | cons t ts ih => simp [ih, and_assoc]

theorem firstTooDeepFrom?_eq_none_iff {tokens : List (Placed Token)} :
    firstTooDeepFrom? n tokens = Option.none ↔ n.Fits (tokens.map Placed.item) := by
  induction tokens generalizing n with
  | nil => simp [firstTooDeepFrom?]
  | cons t rest ih =>
    rw [firstTooDeepFrom?, List.map_cons, fits_cons, ← ih]
    split
    · next h => simp [Nat.not_le.2 h]
    · next h => simp [Nat.not_lt.1 h]

end Nesting

namespace Grammar

theorem step_of_mem_prefixes {m : Mark} {op : PrefixOp} (h : (m, op) ∈ prefixes) (n : Nesting) :
    n.step (.mark m) = ⟨n.depth, n.run + 1⟩ := by
  simp only [prefixes, List.mem_cons, List.not_mem_nil, or_false, Prod.mk.injEq] at h
  obtain ⟨rfl, -⟩ | ⟨rfl, -⟩ := h <;> rfl

/-- A binary operator opens nothing, though it may count as one in front of an operand. -/
theorem depth_step_operator {level : Nat} {m : Mark} {op : BinaryOp}
    (h : (m, op) ∈ operators level) (n : Nesting) : (n.step (.mark m)).depth = n.depth := by
  obtain ⟨hm, -⟩ := mem_operators_iff.1 h
  cases m <;> first | rfl | simp [BinaryOp.ofMark?] at hm

/-! ## Brackets are closed again -/

mutual

theorem Atom.after_eq {ts : List Token} {e : Expr} (h : Atom ts e) (n : Nesting) :
    n.after ts = ⟨n.depth, 0⟩ := by
  match h with
  | .literal h => cases h <;> rfl
  | .var name => rfl
  | .call name h =>
    have ih := h.depth_after ⟨n.depth + 1, 0⟩
    simp [Nesting.step, ih]
  | .array h =>
    have ih := h.depth_after ⟨n.depth + 1, 0⟩
    simp [Nesting.step, ih]
  | .map h =>
    have ih := h.depth_after ⟨n.depth + 1, 0⟩
    simp [Nesting.step, ih]
  | .group h =>
    have ih := h.after_eq ⟨n.depth + 1, 0⟩
    simp [Nesting.step, ih]

theorem Indexed.after_eq {ts : List Token} {e : Expr} (h : Indexed ts e) (n : Nesting) :
    n.after ts = ⟨n.depth, 0⟩ := by
  match h with
  | .atom h => exact h.after_eq n
  | .index h hi =>
    have ih := h.after_eq n
    have ihi := hi.after_eq ⟨n.depth + 1, 0⟩
    simp [Nesting.step, ih, ihi]

theorem Operand.after_eq {ts : List Token} {e : Expr} (h : Operand ts e) (n : Nesting) :
    n.after ts = ⟨n.depth, 0⟩ := by
  match h with
  | .indexed h => exact h.after_eq n
  | .prefixed hop h =>
    have ih := h.after_eq ⟨n.depth, n.run + 1⟩
    simpa [step_of_mem_prefixes hop] using ih

theorem Chain.after_eq {level : Nat} {ts : List Token} {e : Expr} (h : Chain level ts e)
    (n : Nesting) : n.after ts = ⟨n.depth, 0⟩ := by
  match h with
  | .operand h => exact h.after_eq n
  | .looser h => exact h.after_eq n
  | .binary (m := m) hop hl hr =>
    have ihl := hl.after_eq n
    have ihr := hr.after_eq ((⟨n.depth, 0⟩ : Nesting).step (.mark m))
    simp [ihl, ihr, depth_step_operator hop]

theorem Items.depth_after {ts : List Token} {es : List Expr} (h : Items ts es) (n : Nesting) :
    (n.after ts).depth = n.depth := by
  match h with
  | .nil => rfl
  | .last h => rw [h.after_eq n]
  | .cons h hr =>
    have ih := hr.depth_after ⟨n.depth, 0⟩
    simpa [h.after_eq n, Nesting.step] using ih

theorem Entries.depth_after {ts : List Token} {es : List (Expr × Expr)} (h : Entries ts es)
    (n : Nesting) : (n.after ts).depth = n.depth := by
  match h with
  | .nil => rfl
  | .last hk hv => simp [hk.after_eq n, hv.after_eq, Nesting.step]
  | .cons hk hv hr =>
    have ih := hr.depth_after ⟨n.depth, 0⟩
    simpa [hk.after_eq n, hv.after_eq, Nesting.step] using ih

end

/-! ## Room -/

/-- How deep an expression may be where `q` more may be open : operators as long as there is room
for them, then a bracket, and the same inside. -/
def room (sign : Nat) : (q : Nat) → Nat
  | 0 => 0
  | q + 1 => room sign q + 1 + sign * (q + 1)

theorem sign_mul_le_room (sign q : Nat) : sign * q ≤ room sign q := by
  cases q with
  | zero => exact Nat.zero_le _
  | succ q => exact Nat.le_add_left _ _

/-- Behind a bracket there is room for one less, and the operators in front of it were free. -/
theorem exists_inside (sign : Nat) {d q : Nat}
    (hopen : (⟨d + 1, 0⟩ : Nesting).total ≤ nestingLimit) (hq : d + q = nestingLimit) :
    ∃ q', d + 1 + q' = nestingLimit ∧ room sign q' + 1 + sign * q = room sign q := by
  have hle : d + 1 ≤ nestingLimit := hopen
  obtain ⟨q', rfl⟩ : ∃ q', q = q' + 1 := ⟨q - 1, by omega⟩
  exact ⟨q', by omega, rfl⟩

theorem depth_call_le (sign : Nat) (name : String) (args : List Expr) (offset : Nat) :
    (Expr.call name args offset).depth sign ≤ Expr.depthItems sign args + 1 := by
  cases args with
  | nil => exact Nat.zero_le _
  | cons arg args => exact Nat.le_refl _

mutual

theorem Atom.depth_le {ts : List Token} {e : Expr} (h : Atom ts e) (sign : Nat) {n : Nesting}
    {q : Nat} (hf : n.Fits ts) (hq : n.depth + q = nestingLimit) :
    e.depth sign + sign * q ≤ room sign q := by
  match h with
  | .literal h => cases h <;> simpa [Expr.depth] using sign_mul_le_room sign q
  | .var name => simpa [Expr.depth] using sign_mul_le_room sign q
  | @Atom.call name _ args h =>
    simp only [Nesting.fits_cons, Nesting.fits_append, Nesting.step] at hf
    obtain ⟨-, hopen, hinside, -⟩ := hf
    obtain ⟨q', hq', hroom⟩ := exists_inside sign hopen hq
    have hargs := h.depth_le sign hinside hopen hq'
    have hcall := depth_call_le sign name args 0
    omega
  | .array h =>
    simp only [Nesting.fits_cons, Nesting.fits_append, Nesting.step] at hf
    obtain ⟨hopen, hinside, -⟩ := hf
    obtain ⟨q', hq', hroom⟩ := exists_inside sign hopen hq
    have hitems := h.depth_le sign hinside hopen hq'
    simp only [Expr.depth]
    omega
  | .map h =>
    simp only [Nesting.fits_cons, Nesting.fits_append, Nesting.step] at hf
    obtain ⟨hopen, hinside, -⟩ := hf
    obtain ⟨q', hq', hroom⟩ := exists_inside sign hopen hq
    have hentries := h.depth_le sign hinside hopen hq'
    simp only [Expr.depth]
    omega
  | .group h =>
    simp only [Nesting.fits_cons, Nesting.fits_append, Nesting.step] at hf
    obtain ⟨hopen, hinside, -⟩ := hf
    obtain ⟨q', hq', hroom⟩ := exists_inside sign hopen hq
    have he := h.depth_le sign hinside hopen hq'
    omega

theorem Indexed.depth_le {ts : List Token} {e : Expr} (h : Indexed ts e) (sign : Nat) {n : Nesting}
    {q : Nat} (hf : n.Fits ts) (hq : n.depth + q = nestingLimit) :
    e.depth sign + sign * q ≤ room sign q := by
  match h with
  | .atom h => exact h.depth_le sign hf hq
  | .index h hi =>
    simp only [Nesting.fits_cons, Nesting.fits_append, Nesting.step, h.after_eq n] at hf
    obtain ⟨htarget, hopen, hinside, -⟩ := hf
    have htarget := h.depth_le sign htarget hq
    obtain ⟨q', hq', hroom⟩ := exists_inside sign hopen hq
    have hindex := hi.depth_le sign hinside hopen hq'
    simp only [Expr.depth]
    omega

theorem Operand.depth_le {ts : List Token} {e : Expr} (h : Operand ts e) (sign : Nat) {n : Nesting}
    {q : Nat} (hf : n.Fits ts) (hn : n.total ≤ nestingLimit) (hq : n.depth + q = nestingLimit) :
    e.depth sign + sign * n.run ≤ room sign q := by
  match h with
  | .indexed h =>
    have he := h.depth_le sign hf hq
    have hrun : n.run ≤ q := by
      unfold Nesting.total at hn
      omega
    have hsign := Nat.mul_le_mul_left sign hrun
    omega
  | .prefixed hop h =>
    simp only [Nesting.fits_cons, step_of_mem_prefixes hop] at hf
    have he := h.depth_le sign hf.2 hf.1 hq
    rw [Nat.mul_succ] at he
    simp only [Expr.depth]
    omega

theorem Chain.depth_le {level : Nat} {ts : List Token} {e : Expr} (h : Chain level ts e)
    (sign : Nat) {n : Nesting} {q : Nat} (hf : n.Fits ts) (hn : n.total ≤ nestingLimit)
    (hq : n.depth + q = nestingLimit) : e.depth sign ≤ room sign q := by
  match h with
  | .operand h => exact Nat.le_trans (Nat.le_add_right _ _) (h.depth_le sign hf hn hq)
  | .looser h => exact h.depth_le sign hf hn hq
  | .binary hop hl hr =>
    simp only [Nesting.fits_cons, Nesting.fits_append, hl.after_eq n] at hf
    have hleft := hl.depth_le sign hf.1 hn hq
    have hdepth := depth_step_operator hop ⟨n.depth, 0⟩
    have hright := hr.depth_le sign hf.2.2 hf.2.1 (hdepth ▸ hq)
    exact Nat.max_le.2 ⟨hleft, hright⟩

theorem Items.depth_le {ts : List Token} {es : List Expr} (h : Items ts es) (sign : Nat)
    {n : Nesting} {q : Nat} (hf : n.Fits ts) (hn : n.total ≤ nestingLimit)
    (hq : n.depth + q = nestingLimit) : Expr.depthItems sign es ≤ room sign q := by
  match h with
  | .nil => exact Nat.zero_le _
  | .last h =>
    have he := h.depth_le sign hf hn hq
    simpa [Expr.depthItems] using he
  | .cons h hr =>
    simp only [Nesting.fits_cons, Nesting.fits_append, Nesting.step, h.after_eq n] at hf
    have he := h.depth_le sign hf.1 hn hq
    have hrest := hr.depth_le sign hf.2.2 hf.2.1 hq
    exact Nat.max_le.2 ⟨he, hrest⟩

theorem Entries.depth_le {ts : List Token} {es : List (Expr × Expr)} (h : Entries ts es)
    (sign : Nat) {n : Nesting} {q : Nat} (hf : n.Fits ts) (hn : n.total ≤ nestingLimit)
    (hq : n.depth + q = nestingLimit) : Expr.depthEntries sign es ≤ room sign q := by
  match h with
  | .nil => exact Nat.zero_le _
  | .last hk hv =>
    simp only [Nesting.fits_cons, Nesting.fits_append, Nesting.step, hk.after_eq n] at hf
    have hkey := hk.depth_le sign hf.1 hn hq
    have hvalue := hv.depth_le sign hf.2.2 hf.2.1 hq
    simpa [Expr.depthEntries] using ⟨hkey, hvalue⟩
  | .cons hk hv hr =>
    simp only [Nesting.fits_cons, Nesting.fits_append, Nesting.step, hk.after_eq n,
      hv.after_eq] at hf
    obtain ⟨hkfits, hcolon, hvfits, hcomma, hrfits⟩ := hf
    have hkey := hk.depth_le sign hkfits hn hq
    have hvalue := hv.depth_le sign hvfits hcolon hq
    have hrest := hr.depth_le sign hrfits hcomma hq
    exact Nat.max_le.2 ⟨Nat.max_le.2 ⟨hkey, hvalue⟩, hrest⟩

end

/-! ## Programs -/

theorem Line.after_eq {ts : List Token} {s : Statement} (h : Line ts s) (n : Nesting) :
    n.after ts = ⟨n.depth, 0⟩ := by
  cases h with
  | assign name h =>
    have ih := h.after_eq ⟨n.depth, 0⟩
    simpa [Nesting.step] using ih
  | bare h => exact h.after_eq n

theorem Line.depth_le {ts : List Token} {s : Statement} (h : Line ts s) (sign : Nat) {n : Nesting}
    {q : Nat} (hf : n.Fits ts) (hn : n.total ≤ nestingLimit) (hq : n.depth + q = nestingLimit) :
    s.depth sign ≤ room sign q := by
  cases h with
  | assign name h =>
    simp only [Nesting.fits_cons, Nesting.step] at hf
    exact h.depth_le sign hf.2.2 hf.2.1 hq
  | bare h => exact h.depth_le sign hf hn hq

theorem Slot.depth_after {ts : List Token} {p : Program} (h : Slot ts p) (n : Nesting) :
    (n.after ts).depth = n.depth := by
  cases h with
  | empty => rfl
  | line h => rw [h.after_eq n]

theorem Slot.depth_le {ts : List Token} {p : Program} (h : Slot ts p) (sign : Nat) {n : Nesting}
    {q : Nat} (hf : n.Fits ts) (hn : n.total ≤ nestingLimit) (hq : n.depth + q = nestingLimit) :
    ∀ s ∈ p, s.depth sign ≤ room sign q := by
  cases h with
  | empty => simp
  | line h => simpa using h.depth_le sign hf hn hq

theorem Derives.depth_le {ts : List Token} {p : Program} (h : Derives ts p) (sign : Nat)
    {n : Nesting} {q : Nat} (hf : n.Fits ts) (hn : n.total ≤ nestingLimit)
    (hq : n.depth + q = nestingLimit) : ∀ s ∈ p, s.depth sign ≤ room sign q := by
  induction h generalizing n with
  | slot h => exact h.depth_le sign hf hn hq
  | cons h _ ih =>
    simp only [Nesting.fits_cons, Nesting.fits_append, Nesting.step, h.depth_after n] at hf
    have hslot := h.depth_le sign hf.1 hn hq
    have hrest := ih hf.2.2 hf.2.1 hq
    simpa [or_imp, forall_and] using ⟨hslot, hrest⟩

end Grammar

variable {source : List Char} {tokens : List (Placed Token)} {p : Program}

/-- A program that is read is derived from words that stay within the limit. -/
theorem derives_of_parse (ht : tokenize source = .ok tokens) (h : parse source = .ok p) :
    Nesting.none.Fits (tokens.map Placed.item) ∧
      Grammar.Derives (tokens.map Placed.item) p.unplaced := by
  cases hn : firstTooDeep? tokens with
  | some t => simp [parse, ht, parseTokens, hn] at h
  | none =>
    have hd := (parse_eq_ok_iff_derives ht hn).1 p.unplaced
    exact ⟨Nesting.firstTooDeepFrom?_eq_none_iff.1 hn, hd.1 ⟨p, h, rfl⟩⟩

theorem exists_tokenize_of_parse (h : parse source = .ok p) :
    ∃ tokens, tokenize source = .ok tokens := by
  cases ht : tokenize source with
  | error f => simp [parse, ht] at h
  | ok tokens => exact ⟨tokens, rfl⟩

/-- No statement of a program is deeper than there is room for. -/
theorem depth_le_of_parse (h : parse source = .ok p) (sign : Nat) :
    ∀ s ∈ p, s.depth sign ≤ Grammar.room sign nestingLimit := by
  obtain ⟨tokens, ht⟩ := exists_tokenize_of_parse h
  obtain ⟨hf, hd⟩ := derives_of_parse ht h
  intro s hs
  have hdepth := hd.depth_le sign hf (Nat.zero_le _) (Nat.zero_add _) s.unplaced
    (List.mem_map_of_mem hs)
  rwa [Statement.depth_unplaced] at hdepth

end RemoteEval.Script
