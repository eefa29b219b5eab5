import RemoteEval.Proofs.Lexer.OpenInput
import RemoteEval.Proofs.Parser.Depth

/-!
# The deepest sources

A bracket starts the count of operators over, so that operators and brackets in turn reach any
depth there is room for (`exists_deep_words`). The brackets alone are never more than the limit ;
with the operators a statement is as deep as `nestingLimit * (nestingLimit + 3) / 2`, and no
deeper (`parse_depth_le_iff`).
-/

namespace RemoteEval.Script

open Grammar

/-! ## Characters that spell words -/

theorem Mark.pair?_eq_none {c : Char} (h : c ∉ ['=', '!', '<', '>', '&', '|']) (d : Char) :
    Mark.pair? c d = none := by
  unfold Mark.pair?
  split <;> simp_all

/-- The characters are read as the words, whatever stands behind them. -/
def Spells (cs : List Char) (ts : List Token) : Prop :=
  ∀ offset rest, ∃ placed, placed.map Placed.item = ts ∧
    tokensFrom offset 0 (cs ++ rest) =
      (tokensFrom (offset + width cs) 0 rest).map (placed ++ ·)

namespace Spells

variable {cs ds : List Char} {ts us : List Token}

theorem nil : Spells [] [] := fun _ _ => ⟨[], rfl, (map_nil_append _).symm⟩

theorem append (h : Spells cs ts) (h' : Spells ds us) : Spells (cs ++ ds) (ts ++ us) := by
  intro offset rest
  obtain ⟨placed, hitems, hplaced⟩ := h offset (ds ++ rest)
  obtain ⟨placed', hitems', hplaced'⟩ := h' (offset + width cs) rest
  refine ⟨placed ++ placed', by simp [hitems, hitems'], ?_⟩
  rw [List.append_assoc, hplaced, hplaced', map_append_append, width_append, Nat.add_assoc]

/-- One lexeme, if it does not depend on what stands behind it. -/
theorem lexeme {c : Char} {t : Token}
    (h : ∀ rest, scan c (cs ++ rest) = (.token t, cs.length)) : Spells (c :: cs) [t] := by
  intro offset rest
  refine ⟨[⟨t, offset, offset + width (c :: cs)⟩], rfl, ?_⟩
  have hrest := tokensFrom_skip (offset + c.utf8Size) cs rest
  simp only [List.cons_append, tokensFrom, h, hrest, List.take_left']
  rw [width_cons, ← Nat.add_assoc]
  cases tokensFrom (offset + c.utf8Size + width cs) 0 rest <;> rfl

theorem tokenize_eq (h : Spells cs ts) :
    ∃ tokens, tokens.map Placed.item = ts ∧ tokenize cs = .ok tokens := by
  obtain ⟨placed, hitems, hplaced⟩ := h 0 []
  rw [List.append_nil] at hplaced
  exact ⟨placed, hitems, by simp [tokenize, hplaced, tokensFrom, Except.map]⟩

/-- A mark with which no longer one starts. -/
theorem mark {c : Char} {m : Mark} (hs : ∀ rest, scan c rest = scanMark c rest)
    (hp : c ∉ ['=', '!', '<', '>', '&', '|']) (hm : Mark.single? c = some m) :
    Spells [c] [.mark m] := by
  refine lexeme fun rest => ?_
  rw [List.nil_append, hs, scanMark]
  cases rest with
  | nil => simp [hm]
  | cons d rest => simp [Mark.pair?_eq_none hp d, hm]

theorem minus : Spells ['-'] [.mark .minus] := mark (fun _ => rfl) (by decide) rfl

theorem openBracket : Spells ['['] [.mark .openBracket] := mark (fun _ => rfl) (by decide) rfl

theorem closeBracket : Spells [']'] [.mark .closeBracket] := mark (fun _ => rfl) (by decide) rfl

theorem emptyText : Spells ['"', '"'] [.str ""] :=
  lexeme fun rest => by
    change scanLiteral '"' textLiteral ('"' :: rest) = _
    rw [scanLiteral, literalBody?_quote]
    rfl

theorem signs (n : Nat) : Spells (List.replicate n '-') (List.replicate n (.mark .minus)) := by
  induction n with
  | zero => exact nil
  | succ n ih => exact minus.append ih

end Spells

/-! ## Operators and brackets in turn -/

namespace Grammar

theorem Operand.signs {ts : List Token} {e : Expr} (h : Operand ts e) (n : Nat) :
    ∃ e', Operand (List.replicate n (.mark .minus) ++ ts) e' ∧ e'.depth 1 = e.depth 1 + n := by
  induction n with
  | zero => exact ⟨e, h, rfl⟩
  | succ n ih =>
    obtain ⟨e', h', hdepth⟩ := ih
    exact ⟨_, .prefixed (.head _) h', by rw [Expr.depth, hdepth, Nat.add_assoc]⟩

theorem Operand.leaf : Operand [.str ""] (.str "") := .indexed (.atom (.literal (.str "")))

theorem Operand.chain {ts : List Token} {e : Expr} (h : Operand ts e) : Chain 1 ts e :=
  (Chain.operand h).mono (by decide)

end Grammar

theorem Nesting.fits_signs {n : Nesting} {k : Nat} {ts : List Token}
    (h : n.total + k ≤ nestingLimit) (hf : Nesting.Fits ⟨n.depth, n.run + k⟩ ts) :
    n.Fits (List.replicate k (.mark .minus) ++ ts) := by
  induction k generalizing n with
  | zero => exact hf
  | succ k ih =>
    have hstep : (n.step (.mark .minus)).total + k ≤ nestingLimit := by
      simp only [Nesting.total, Nesting.step] at h ⊢
      omega
    refine ⟨by omega, ih hstep ?_⟩
    simpa [Nesting.step, Nat.add_assoc, Nat.add_comm 1] using hf

/-- Any depth there is room for is reached : by operators alone, or by as many operators as may
stand in front of a bracket and the rest inside. -/
theorem exists_deep_words {q n : Nat} (hn : n ≤ room 1 q) :
    ∃ cs ts e, Spells cs ts ∧ Operand ts e ∧ e.depth 1 = n ∧
      ∀ d, d + q = nestingLimit → Nesting.Fits ⟨d, 0⟩ ts := by
  induction q generalizing n with
  | zero =>
    obtain rfl : n = 0 := Nat.le_zero.1 hn
    refine ⟨_, _, _, .emptyText, .leaf, rfl, fun d hd => ?_⟩
    exact ⟨Nat.le_of_eq hd, trivial⟩
  | succ q ih =>
    by_cases hq : n ≤ q + 1
    · obtain ⟨e, he, hdepth⟩ := Operand.leaf.signs n
      refine ⟨_, _, e, (Spells.signs n).append .emptyText, he, ?_, fun d hd => ?_⟩
      · rw [hdepth]
        exact Nat.zero_add n
      · have hle : d + n ≤ nestingLimit := by omega
        refine Nesting.fits_signs hle ?_
        exact ⟨Nat.le_trans (Nat.le_add_right d n) hle, trivial⟩
    · have hrest : n - (q + 2) ≤ room 1 q := by
        rw [room] at hn
        omega
      obtain ⟨cs, ts, e, hspells, he, hdepth, hfits⟩ := ih hrest
      have harray : Operand (.mark .openBracket :: (ts ++ [.mark .closeBracket])) (.array [e]) :=
        .indexed (.atom (.array (.last he.chain)))
      obtain ⟨e', he', hdepth'⟩ := harray.signs (q + 1)
      refine ⟨_, _, e', (Spells.signs (q + 1)).append
        (Spells.openBracket.append (hspells.append .closeBracket)), he', ?_, fun d hd => ?_⟩
      · simp only [Expr.depth, Expr.depthItems] at hdepth'
        omega
      · refine Nesting.fits_signs (Nat.le_of_eq hd) ?_
        have hinside := hfits (d + 1) (by omega)
        have hafter := he.after_eq ⟨d + 1, 0⟩
        simp [Nesting.step, Nesting.total, hinside, hafter]
        omega

theorem room_brackets (q : Nat) : room 0 q = q := by
  induction q with
  | zero => rfl
  | succ q ih => simp [room, ih]

theorem room_signs (q : Nat) : 2 * room 1 q = q * (q + 3) := by
  induction q with
  | zero => rfl
  | succ q ih =>
    rw [room]
    ring_nf at ih ⊢
    omega

/-! ## Sources -/

theorem exists_parse_of_words {cs : List Char} {ts : List Token} {e : Expr} (hs : Spells cs ts)
    (he : Operand ts e) (hf : Nesting.none.Fits ts) :
    ∃ p, parse cs = .ok p ∧ ∃ s ∈ p, s.unplaced = .bare e := by
  obtain ⟨tokens, hitems, ht⟩ := hs.tokenize_eq
  have hn : firstTooDeep? tokens = none :=
    Nesting.firstTooDeepFrom?_eq_none_iff.2 (by rwa [hitems])
  have hd : Derives (tokens.map Placed.item) [.bare e] := by
    rw [hitems]
    exact .slot (.line (.bare he.chain))
  obtain ⟨p, hp, hunplaced⟩ := ((parse_eq_ok_iff_derives ht hn).1 _).2 hd
  obtain ⟨s, rfl, hs⟩ := List.map_eq_singleton_iff.1 hunplaced
  exact ⟨[s], hp, s, .head _, hs⟩

/-- Brackets alone are never nested deeper than the limit. Counting the operators in front of them
too, exactly the depths up to `nestingLimit * (nestingLimit + 3) / 2` occur. -/
theorem parse_depth_le_iff :
    (∀ source p, parse source = .ok p → ∀ s ∈ p, s.depth 0 ≤ nestingLimit) ∧
      ∀ n, (∃ source p, parse source = .ok p ∧ ∃ s ∈ p, s.depth 1 = n) ↔
        n ≤ nestingLimit * (nestingLimit + 3) / 2 := by
  have hroom : room 1 nestingLimit = nestingLimit * (nestingLimit + 3) / 2 := by
    have h := room_signs nestingLimit
    omega
  refine ⟨fun source p h s hs => ?_, fun n => ⟨?_, fun hn => ?_⟩⟩
  · have hdepth := depth_le_of_parse h 0 s hs
    rwa [room_brackets] at hdepth
  · rintro ⟨source, p, h, s, hs, rfl⟩
    rw [← hroom]
    exact depth_le_of_parse h 1 s hs
  · rw [← hroom] at hn
    obtain ⟨cs, ts, e, hspells, he, hdepth, hfits⟩ := exists_deep_words hn
    obtain ⟨p, hp, s, hs, hunplaced⟩ :=
      exists_parse_of_words hspells he (hfits 0 (Nat.zero_add _))
    refine ⟨cs, p, hp, s, hs, ?_⟩
    rw [← Statement.depth_unplaced, hunplaced]
    exact hdepth

end RemoteEval.Script
