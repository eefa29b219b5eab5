import RemoteEval.Proofs.Parser.Places

/-!
# The parser goes on as long as some program does

Whatever is open can be closed (`Context.exists_line`), so the words that a reading has taken are
the beginning of a program (`Reads.viable`). A reading that refuses a word rightly does so : a
program that went on with it would have been read (`After.not_viable`). `After.judge` sums up what
the verdict on tokens says of their words.
-/

namespace RemoteEval.Script

namespace Grammar

/-! ## Closing what is open -/

theorem Atom.chain {ts : List Token} {e : Expr} (h : Atom ts e) {n : Nat}
    (hn : n ≤ operandLevel) : Chain n ts e :=
  (Chain.operand (.indexed (.atom h))).mono hn

/-- Open constructs and an expression where they wait for one are the beginning of a line. -/
theorem Context.exists_line {frames : List Frame} {n : Nat} {ws ts : List Token} {e : Expr}
    (hc : Context frames n ws) (he : Chain n ts e) : ∃ more s, Line (ws ++ ts ++ more) s := by
  induction hc generalizing ts e with
  | line => exact ⟨[], _, by simpa using Line.bare he⟩
  | assignment name => exact ⟨[], _, by simpa using Line.assign name he⟩
  | group hc ih =>
    obtain ⟨more, s, h⟩ := ih (Atom.chain (.group he) hc.level_le)
    exact ⟨.mark .closeParen :: more, s, by simpa using h⟩
  | call name hc hargs ih =>
    obtain ⟨more, s, h⟩ := ih (Atom.chain (.call name (hargs _ _ (.last he))) hc.level_le)
    exact ⟨.mark .closeParen :: more, s, by simpa using h⟩
  | array hc hitems ih =>
    obtain ⟨more, s, h⟩ := ih (Atom.chain (.array (hitems _ _ (.last he))) hc.level_le)
    exact ⟨.mark .closeBracket :: more, s, by simpa using h⟩
  | mapKey hc hentries ih =>
    have hnull := Atom.chain (.literal .null) (n := 1) (by simp [operandLevel])
    obtain ⟨more, s, h⟩ := ih (Atom.chain (.map (hentries _ _ (.last he hnull))) hc.level_le)
    exact ⟨.mark .colon :: .null :: .mark .closeBrace :: more, s, by simpa using h⟩
  | mapValue hc hentries hk ih =>
    obtain ⟨more, s, h⟩ := ih (Atom.chain (.map (hentries _ _ (.last hk he))) hc.level_le)
    exact ⟨.mark .closeBrace :: more, s, by simpa using h⟩
  | index hc ht ih =>
    have hi := (Chain.operand (.indexed (.index ht he))).mono hc.level_le
    obtain ⟨more, s, h⟩ := ih hi
    exact ⟨.mark .closeBracket :: more, s, by simpa using h⟩
  | prefixOp hc hop ih =>
    have hu := Chain.operand (.prefixed hop (he.toOperand (Nat.le_refl _)))
    obtain ⟨more, s, h⟩ := ih (hu.mono hc.level_le)
    exact ⟨more, s, by simpa using h⟩
  | binary hc hn hleft hop ih =>
    obtain ⟨more, s, h⟩ := ih ((Chain.binary hop hleft he).mono hn)
    exact ⟨more, s, by simpa using h⟩

theorem StageOf.exists_slot {stage : Stage} {ws : List Token} (h : StageOf stage ws) :
    ∃ more p, Slot (ws ++ more) p := by
  cases h with
  | fresh => exact ⟨[], [], .empty⟩
  | wanted hc =>
    obtain ⟨more, s, h⟩ := hc.exists_line (Atom.chain (.literal .null) hc.level_le)
    exact ⟨.null :: more, [s], .line (by simpa using h)⟩
  | named name hc =>
    obtain ⟨more, s, h⟩ := hc.exists_line (Atom.chain (.var name) hc.level_le)
    exact ⟨more, [s], .line h⟩
  | whole hc he =>
    obtain ⟨more, s, h⟩ := hc.exists_line ((Chain.operand (.indexed he)).mono hc.level_le)
    exact ⟨more, [s], .line h⟩

/-- What has been read is the beginning of a program. -/
theorem Reads.viable {r : Reading} {ws : List Token} (h : Reads r ws) : Viable ws := by
  obtain ⟨before, current, rfl, hb, hs⟩ := h
  obtain ⟨more, p, h⟩ := hs.exists_slot
  exact ⟨more, r.finished ++ p, by simpa using hb _ _ (.slot h)⟩

/-! ## Verdicts -/

/-- The reading is the one after the words. -/
structure After (r : Reading) (ws : List Token) : Prop where
  reads : Reads r ws
  verdict_append : ∀ us, verdict .start (ws ++ us) = verdict r us

theorem After.start : After .start [] := ⟨.start, fun _ => rfl⟩

theorem After.step {r r' : Reading} {ws : List Token} (h : After r ws) {t : Token}
    (hs : r.step t.unplaced = some r') : After r' (ws ++ [t]) := by
  refine ⟨h.reads.step hs, fun us => ?_⟩
  rw [List.append_assoc, h.verdict_append]
  exact verdict_cons hs us

/-- Words that end where a statement is open are no program. -/
theorem After.not_derives {r : Reading} {ws : List Token} (h : After r ws)
    (hp : r.program? = none) (p : Program) : ¬Derives ws p := by
  intro hd
  have hv := h.verdict_append []
  rw [List.append_nil, show verdict .start ws = .program p from judge_eq_program.2 hd] at hv
  simp [verdict, Reading.judge, hp] at hv

/-- No program goes on with a word that is refused. -/
theorem After.not_viable {r : Reading} {ws : List Token} (h : After r ws) {t : Token}
    (hs : r.step t.unplaced = none) : ¬Viable (ws ++ [t]) := by
  rintro ⟨more, p, hd⟩
  have hv := h.verdict_append (t :: more)
  rw [List.append_assoc] at hd
  rw [show verdict .start (ws ++ t :: more) = .program p from judge_eq_program.2 hd] at hv
  simp [verdict, Reading.judge, hs] at hv

/-- What a verdict says of the words before the tokens and theirs. -/
def Means (ws : List Token) (tokens : List (Placed Token)) : Verdict → Prop
  | .program p => Derives (ws ++ tokens.map Placed.item) p.unplaced
  | .incomplete =>
    Viable (ws ++ tokens.map Placed.item) ∧ ∀ p, ¬Derives (ws ++ tokens.map Placed.item) p
  | .unexpected t =>
    ∃ before after, tokens = before ++ t :: after ∧ Viable (ws ++ before.map Placed.item) ∧
      ¬Viable (ws ++ before.map Placed.item ++ [t.item])

theorem Means.cons {ws : List Token} {t : Placed Token} {rest : List (Placed Token)} {v : Verdict}
    (h : Means (ws ++ [t.item]) rest v) : Means ws (t :: rest) v := by
  cases v with
  | program p => simpa [Means] using h
  | incomplete => simpa [Means] using h
  | unexpected u =>
    obtain ⟨before, after, rfl, hv, hn⟩ := h
    exact ⟨t :: before, after, rfl, by simpa using hv, by simpa using hn⟩

theorem After.judge {r : Reading} {ws : List Token} (h : After r.unplaced ws)
    (tokens : List (Placed Token)) : Means ws tokens (r.judge tokens) := by
  induction tokens generalizing r ws with
  | nil =>
    have hp := r.program_unplaced
    cases hr : r.program? with
    | none =>
      rw [hr] at hp
      simpa [Reading.judge, hr, Means] using ⟨h.reads.viable, h.not_derives hp⟩
    | some p =>
      rw [hr] at hp
      simpa [Reading.judge, hr, Means] using h.reads.program hp
  | cons t rest ih =>
    have hs := r.step_unplaced t
    cases hr : r.step t with
    | none =>
      rw [hr] at hs
      simp only [Reading.judge, hr]
      exact ⟨[], rest, rfl, by simpa using h.reads.viable, by simpa using h.not_viable hs⟩
    | some r' =>
      rw [hr] at hs
      simpa [Reading.judge, hr] using (ih (h.step hs)).cons

end Grammar

end RemoteEval.Script
