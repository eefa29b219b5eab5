import RemoteEval.Script.Grammar
import RemoteEval.Script.Parser

/-!
# What the parser reads is grammatical

Each stage of the parser stands for a part of a derivation. `Context frames level ws` says that
the open constructs `frames` have taken the words `ws` and wait for a chain of `level`,
`StageOf` says the same of a whole stage, `Reads` of the statements before it as well. A step
keeps `Reads` (`Reads.step`), hence so does a run, and a program that the parser returns is
derived by the words it read (`derives_of_judge`).

The same relation shows that nothing read is a dead end : whatever is open can be closed
(`Reads.viable`).
-/

namespace RemoteEval.Script

/-- A word at no place in particular. -/
def Token.unplaced (t : Token) : Placed Token := ⟨t, 0, 0⟩

namespace Grammar

/-! ## Levels -/

theorem Chain.mono {m n : Nat} {ts : List Token} {e : Expr} (hn : n ≤ m) (h : Chain m ts e) :
    Chain n ts e := by
  induction hn with
  | refl => exact h
  | step _ ih => exact ih h.looser

theorem level_le_of_mem_operators {n : Nat} {m : Mark} {op : BinaryOp}
    (h : (m, op) ∈ operators n) : n < operandLevel := by
  unfold operators at h
  split at h <;> simp_all [operandLevel]

/-- No binary operator binds as tightly as an operand. -/
theorem Chain.toOperand {n : Nat} {ts : List Token} {e : Expr} (h : Chain n ts e)
    (hn : operandLevel ≤ n) : Operand ts e := by
  match h with
  | .operand h => exact h
  | .looser h => exact h.toOperand (by omega)
  | .binary hop _ _ =>
    have := level_le_of_mem_operators hop
    omega

/-- The table of operators is the one by which the parser reads marks. -/
theorem mem_operators_iff {n : Nat} {m : Mark} {op : BinaryOp} :
    (m, op) ∈ operators n ↔ BinaryOp.ofMark? m = some op ∧ op.level = n := by
  constructor
  · intro h
    unfold operators at h
    split at h <;> simp at h <;> rcases h with h | h | h | h <;>
      simp_all [BinaryOp.ofMark?, BinaryOp.level]
  · rintro ⟨h, rfl⟩
    cases m <;> simp [BinaryOp.ofMark?] at h <;> subst h <;> simp [operators, BinaryOp.level]

/-! ## What open constructs have taken -/

/-- Words of items to which any further items can be added. -/
def ItemsBefore (ts : List Token) (es : List Expr) : Prop :=
  ∀ us fs, Items us fs → Items (ts ++ us) (es ++ fs)

theorem ItemsBefore.nil : ItemsBefore [] [] := fun _ _ h => h

theorem ItemsBefore.snoc {ts us : List Token} {es : List Expr} {e : Expr}
    (h : ItemsBefore ts es) (he : Chain 1 us e) :
    ItemsBefore (ts ++ us ++ [.mark .comma]) (es ++ [e]) := by
  intro vs fs hf
  simpa using h _ _ (.cons he hf)

/-- Words of entries to which any further entries can be added. -/
def EntriesBefore (ts : List Token) (es : List (Expr × Expr)) : Prop :=
  ∀ us fs, Entries us fs → Entries (ts ++ us) (es ++ fs)

theorem EntriesBefore.nil : EntriesBefore [] [] := fun _ _ h => h

theorem EntriesBefore.snoc {ts ks vs : List Token} {es : List (Expr × Expr)} {k v : Expr}
    (h : EntriesBefore ts es) (hk : Chain 1 ks k) (hv : Chain 1 vs v) :
    EntriesBefore (ts ++ ks ++ [.mark .colon] ++ vs ++ [.mark .comma]) (es ++ [(k, v)]) := by
  intro us fs hf
  simpa using h _ _ (.cons hk hv hf)

/-- Words of statements to which any further program can be added. -/
def ProgramBefore (ts : List Token) (p : Program) : Prop :=
  ∀ us q, Derives us q → Derives (ts ++ us) (p ++ q)

theorem ProgramBefore.nil : ProgramBefore [] [] := fun _ _ h => h

theorem ProgramBefore.snoc {ts us : List Token} {p q : Program} (h : ProgramBefore ts p)
    (hq : Slot us q) : ProgramBefore (ts ++ us ++ [.mark .semicolon]) (p ++ q) := by
  intro vs r hr
  simpa using h _ _ (.cons hq hr)

/-- The open constructs `frames` of a statement have taken the words, and a chain of the level
comes next. -/
inductive Context : (frames : List Frame) → (level : Nat) → List Token → Prop where
  | line : Context [] 1 []
  | assignment (name : String) : Context [.assignment name] 1 [.name name, .mark .assign]
  | group {frames : List Frame} {n : Nat} {ws : List Token} : Context frames n ws →
      Context (.group :: frames) 1 (ws ++ [.mark .openParen])
  | call {frames : List Frame} {n : Nat} {ws ts : List Token} {args : List Expr}
      (name : String) : Context frames n ws → ItemsBefore ts args →
      Context (.call name 0 args :: frames) 1 (ws ++ .name name :: .mark .openParen :: ts)
  | array {frames : List Frame} {n : Nat} {ws ts : List Token} {items : List Expr} :
      Context frames n ws → ItemsBefore ts items →
      Context (.array items :: frames) 1 (ws ++ .mark .openBracket :: ts)
  | mapKey {frames : List Frame} {n : Nat} {ws ts : List Token} {entries : List (Expr × Expr)} :
      Context frames n ws → EntriesBefore ts entries →
      Context (.mapKey entries :: frames) 1 (ws ++ .mark .openBrace :: ts)
  | mapValue {frames : List Frame} {n : Nat} {ws ts ks : List Token}
      {entries : List (Expr × Expr)} {key : Expr} :
      Context frames n ws → EntriesBefore ts entries → Chain 1 ks key →
      Context (.mapValue entries key :: frames) 1
        (ws ++ .mark .openBrace :: (ts ++ ks ++ [.mark .colon]))
  | index {frames : List Frame} {n : Nat} {ws ts : List Token} {target : Expr} :
      Context frames n ws → Indexed ts target →
      Context (.index target 0 :: frames) 1 (ws ++ ts ++ [.mark .openBracket])
  | prefixOp {frames : List Frame} {n : Nat} {ws : List Token} {m : Mark} {op : PrefixOp} :
      Context frames n ws → (m, op) ∈ prefixes →
      Context (.prefixOp op 0 :: frames) operandLevel (ws ++ [.mark m])
  | binary {frames : List Frame} {n level : Nat} {ws ts : List Token} {m : Mark} {op : BinaryOp}
      {left : Expr} : Context frames n ws → n ≤ level → Chain level ts left →
      (m, op) ∈ operators level →
      Context (.binary op left 0 :: frames) (level + 1) (ws ++ ts ++ [.mark m])

theorem Context.level_le {frames : List Frame} {n : Nat} {ws : List Token}
    (h : Context frames n ws) : n ≤ operandLevel := by
  cases h with
  | prefixOp => exact Nat.le_refl _
  | binary _ _ _ hop => exact level_le_of_mem_operators hop
  | _ => simp [operandLevel]

/-- The words stand for a stage of a statement. -/
inductive StageOf : Stage → List Token → Prop where
  | fresh : StageOf .fresh []
  | wanted {frames : List Frame} {n : Nat} {ws : List Token} : Context frames n ws →
      StageOf (.wanted frames) ws
  | named {frames : List Frame} {n : Nat} {ws : List Token} (name : String) :
      Context frames n ws → StageOf (.named frames name 0) (ws ++ [.name name])
  | whole {frames : List Frame} {n : Nat} {ws ts : List Token} {e : Expr} :
      Context frames n ws → Indexed ts e → StageOf (.whole frames e) (ws ++ ts)

/-- The words stand for what was read. -/
def Reads (r : Reading) (ws : List Token) : Prop :=
  ∃ before current, ws = before ++ current ∧ ProgramBefore before r.finished ∧
    StageOf r.stage current

theorem Reads.start : Reads .start [] := ⟨[], [], rfl, .nil, .fresh⟩

/-! ## Steps -/

/-- Beginning an operand. -/
theorem Context.beginOperand {frames : List Frame} {n : Nat} {ws : List Token}
    (hc : Context frames n ws) {t : Token} {s : Stage}
    (h : beginOperand frames t.unplaced = some s) : StageOf s (ws ++ [t]) := by
  cases t with
  | bool b =>
    cases h
    exact .whole hc (.atom (.literal (.bool b)))
  | null =>
    cases h
    exact .whole hc (.atom (.literal .null))
  | int i =>
    cases h
    exact .whole hc (.atom (.literal (.int i)))
  | float x =>
    cases h
    exact .whole hc (.atom (.literal (.float x)))
  | str x =>
    cases h
    exact .whole hc (.atom (.literal (.str x)))
  | char x =>
    cases h
    exact .whole hc (.atom (.literal (.char x)))
  | name x =>
    cases h
    exact .named x hc
  | mark m =>
    cases m with
    | openParen =>
      cases h
      exact .wanted hc.group
    | openBracket =>
      cases h
      exact .wanted (hc.array .nil)
    | openBrace =>
      cases h
      exact .wanted (hc.mapKey .nil)
    | minus =>
      cases h
      exact .wanted (hc.prefixOp (by simp [prefixes]))
    | bang =>
      cases h
      exact .wanted (hc.prefixOp (by simp [prefixes]))
    | _ => cases h

/-- Closing a list that is empty or ends with a separator. -/
theorem Context.closeList {frames : List Frame} {n : Nat} {ws : List Token}
    (hc : Context frames n ws) {m : Mark} {s : Stage} (h : closeList? frames m = some s) :
    StageOf s (ws ++ [.mark m]) := by
  unfold closeList? at h
  split at h <;> cases h
  · cases hc with
    | call _ hc hargs => simpa using StageOf.whole hc (.atom (.call _ (hargs _ _ .nil)))
  · cases hc with
    | array hc hitems => simpa using StageOf.whole hc (.atom (.array (hitems _ _ .nil)))
  · cases hc with
    | mapKey hc hentries => simpa using StageOf.whole hc (.atom (.map (hentries _ _ .nil)))

/-- The words of open constructs and of an expression behind them, once the operators that bind
at least as tightly as `level` are closed. -/
def Collapsed (level : Nat) (words : List Token) (result : Expr × List Frame) : Prop :=
  ∃ n ws ts, words = ws ++ ts ∧ n ≤ level ∧ Context result.2 n ws ∧ Chain level ts result.1

/-- Where closing stops, the expression is a chain of the level. -/
theorem Context.stop {frames : List Frame} {n m level : Nat} {ws ts : List Token} {e : Expr}
    (hc : Context frames n ws) (he : Chain m ts e) (hn : n ≤ level) (hm : level ≤ m)
    (h : collapse level e frames = (e, frames)) :
    Collapsed level (ws ++ ts) (collapse level e frames) := by
  rw [h]
  exact ⟨n, ws, ts, rfl, hn, hc, he.mono hm⟩

/-- Going on where an operand is wanted. -/
theorem Context.stepWanted {frames : List Frame} {n : Nat} {ws : List Token}
    (hc : Context frames n ws) {t : Token} {s : Stage}
    (h : stepWanted frames t.unplaced = some s) : StageOf s (ws ++ [t]) := by
  simp only [Script.stepWanted, Token.unplaced] at h
  split at h
  · cases h
    exact hc.beginOperand ‹_›
  · exact hc.closeList h
  · cases h

/-- Closing operators moves words from the open constructs to the expression. -/
theorem Context.collapse {frames : List Frame} {n m level : Nat} {ws ts : List Token} {e : Expr}
    (hc : Context frames n ws) (he : Chain m ts e) (hn : n ≤ m) (hm : m ≤ operandLevel)
    (hl : 1 ≤ level) (hlm : level ≤ m) :
    Collapsed level (ws ++ ts) (collapse level e frames) := by
  induction hc generalizing m ts e with
  | prefixOp hc hop ih =>
    have he' := Chain.operand (.prefixed hop (he.toOperand hn))
    simpa [Script.collapse] using ih he' hc.level_le (Nat.le_refl _) (by omega)
  | @binary frames n level' ws us mk op left hc hlevel hleft hop ih =>
    obtain rfl := (mem_operators_iff.1 hop).2
    by_cases h : level ≤ op.level
    · have he' := Chain.binary hop hleft (he.mono hn)
      have := level_le_of_mem_operators hop
      simpa [Script.collapse, h] using ih he' hlevel (by omega) h
    · exact (hc.binary hlevel hleft hop).stop he (by omega) hlm (by simp [Script.collapse, h])
  | line => exact Context.line.stop he hl hlm rfl
  | assignment name => exact (Context.assignment name).stop he hl hlm rfl
  | group hc => exact hc.group.stop he hl hlm rfl
  | call name hc hargs => exact (hc.call name hargs).stop he hl hlm rfl
  | array hc hitems => exact (hc.array hitems).stop he hl hlm rfl
  | mapKey hc hentries => exact (hc.mapKey hentries).stop he hl hlm rfl
  | mapValue hc hentries hk => exact (hc.mapValue hentries hk).stop he hl hlm rfl
  | index hc ht => exact (hc.index ht).stop he hl hlm rfl

theorem one_le_level (op : BinaryOp) : 1 ≤ op.level := by cases op <;> decide

/-- Every operator has at least the level one. -/
theorem settle_eq (e : Expr) (frames : List Frame) : settle e frames = collapse 1 e frames := by
  unfold settle
  induction frames generalizing e with
  | nil => rfl
  | cons f rest ih => cases f <;> simp [Script.collapse, one_le_level, ih]

/-- Closing all operators behind an indexed atom leaves a chain of the loosest level. -/
theorem Context.settle {frames : List Frame} {n : Nat} {ws ts : List Token} {e : Expr}
    (hc : Context frames n ws) (he : Indexed ts e) : Collapsed 1 (ws ++ ts) (settle e frames) := by
  rw [settle_eq]
  exact hc.collapse (.operand (.indexed he)) hc.level_le (Nat.le_refl _) (Nat.le_refl _)
    (by simp [operandLevel])

/-- A mark that belongs to the innermost bracket. -/
theorem Context.stepBracket {frames : List Frame} {n : Nat} {ws ts : List Token} {e : Expr}
    (hc : Context frames n ws) (he : Chain 1 ts e) {m : Mark} {s : Stage}
    (h : stepBracket e frames m = some s) : StageOf s (ws ++ ts ++ [.mark m]) := by
  unfold Script.stepBracket at h
  split at h <;> cases h
  · cases hc with
    | call name hc hargs => simpa using StageOf.wanted (hc.call _ (hargs.snoc he))
  · cases hc with
    | call name hc hargs => simpa using StageOf.whole hc (.atom (.call _ (hargs _ _ (.last he))))
  · cases hc with
    | array hc hitems => simpa using StageOf.wanted (hc.array (hitems.snoc he))
  · cases hc with
    | array hc hitems => simpa using StageOf.whole hc (.atom (.array (hitems _ _ (.last he))))
  · cases hc with
    | mapKey hc hentries => simpa using StageOf.wanted (hc.mapValue hentries he)
  · cases hc with
    | mapValue hc hentries hk => simpa using StageOf.wanted (hc.mapKey (hentries.snoc hk he))
  · cases hc with
    | mapValue hc hentries hk =>
      simpa using StageOf.whole hc (.atom (.map (hentries _ _ (.last hk he))))
  · cases hc with
    | group hc => simpa using StageOf.whole hc (.atom (.group he))
  · cases hc with
    | index hc ht => simpa using StageOf.whole hc (.index ht he)

/-- Where only a statement is open, the words are its line. -/
theorem Context.statement {frames : List Frame} {n : Nat} {ws ts : List Token} {e : Expr}
    (hc : Context frames n ws) (he : Chain 1 ts e) {s : Statement}
    (h : statement? e frames = some s) : Line (ws ++ ts) s := by
  unfold statement? at h
  split at h <;> cases h
  · cases hc with
    | line => exact .bare he
  · cases hc with
    | assignment => exact .assign _ he

/-- The line that an indexed atom ends. -/
theorem Context.line_of_settle {frames : List Frame} {n : Nat} {ws ts : List Token} {e : Expr}
    (hc : Context frames n ws) (he : Indexed ts e) {s : Statement}
    (h : statement? (Script.settle e frames).1 (Script.settle e frames).2 = some s) :
    Line (ws ++ ts) s := by
  obtain ⟨n', ws', ts', hw, -, hc', he'⟩ := hc.settle he
  rw [hw]
  exact hc'.statement he' h

/-- Going on behind an operand. -/
theorem Reads.stepWhole {r : Reading} {before ws ts : List Token} {frames : List Frame} {n : Nat}
    {e : Expr} (hb : ProgramBefore before r.finished) (hc : Context frames n ws)
    (he : Indexed ts e) {t : Token} {r' : Reading}
    (h : r.stepWhole frames e t.unplaced = some r') : Reads r' (before ++ (ws ++ ts) ++ [t]) := by
  simp only [Reading.stepWhole, Token.unplaced] at h
  split at h
  · cases h
    exact ⟨before, _, List.append_assoc .., hb, .wanted (hc.index he)⟩
  · obtain ⟨s, hs, rfl⟩ := Option.map_eq_some_iff.1 h
    exact ⟨before ++ (ws ++ ts) ++ [.mark .semicolon], [], by simp,
      hb.snoc (.line (hc.line_of_settle he hs)), .fresh⟩
  · split at h
    · rename_i m _ _ op hop
      cases h
      have hop' := mem_operators_iff.2 ⟨hop, rfl⟩
      have := level_le_of_mem_operators hop'
      obtain ⟨n', ws', ts', hw, hn', hc', he'⟩ := hc.collapse (.operand (.indexed he)) hc.level_le
        (Nat.le_refl _) (one_le_level op) (Nat.le_of_lt this)
      rw [hw]
      exact ⟨before, _, List.append_assoc .., hb, .wanted (hc'.binary hn' he' hop')⟩
    · obtain ⟨s, hs, rfl⟩ := Option.map_eq_some_iff.1 h
      obtain ⟨n', ws', ts', hw, -, hc', he'⟩ := hc.settle he
      rw [hw]
      exact ⟨before, _, List.append_assoc .., hb, hc'.stepBracket he' hs⟩
  · cases h

/-- Going on behind a name. -/
theorem Reads.stepNamed {r : Reading} {before ws : List Token} {frames : List Frame} {n : Nat}
    {name : String} (hb : ProgramBefore before r.finished) (hc : Context frames n ws) {t : Token}
    {r' : Reading} (h : r.stepNamed frames name 0 t.unplaced = some r') :
    Reads r' (before ++ (ws ++ [.name name]) ++ [t]) := by
  simp only [Reading.stepNamed, Token.unplaced] at h
  split at h
  · cases h
    exact ⟨before, ws ++ [.name name, .mark .openParen], by simp, hb,
      .wanted (hc.call name .nil)⟩
  · cases h
    cases hc with
    | line => exact ⟨before, [.name name, .mark .assign], by simp, hb, .wanted (.assignment name)⟩
  · exact Reads.stepWhole hb hc (.atom (.var name)) h

/-- What one token adds. -/
theorem Reads.step {r r' : Reading} {ws : List Token} (hr : Reads r ws) {t : Token}
    (h : r.step t.unplaced = some r') : Reads r' (ws ++ [t]) := by
  obtain ⟨before, current, rfl, hb, hs⟩ := hr
  unfold Reading.step at h
  obtain ⟨finished, stage⟩ := r
  cases hs with
  | fresh =>
    simp only [Token.unplaced] at h
    split at h
    · cases h
      exact ⟨before ++ [.mark .semicolon], [], by simp, by simpa using hb.snoc .empty, .fresh⟩
    · obtain ⟨s, hs, rfl⟩ := Option.map_eq_some_iff.1 h
      exact ⟨before, [t], by simp, hb, Context.line.beginOperand hs⟩
  | wanted hc =>
    obtain ⟨s, hs, rfl⟩ := Option.map_eq_some_iff.1 h
    exact ⟨before, _, List.append_assoc .., hb, hc.stepWanted hs⟩
  | named name hc => exact Reads.stepNamed hb hc h
  | whole hc he => exact Reads.stepWhole hb hc he h

/-! ## Runs -/

/-- A program that has been read is derived by the words. -/
theorem Reads.program {r : Reading} {ws : List Token} (hr : Reads r ws) {p : Program}
    (h : r.program? = some p) : Derives ws p := by
  obtain ⟨before, current, rfl, hb, hs⟩ := hr
  obtain ⟨finished, stage⟩ := r
  cases hs with
  | fresh =>
    cases h
    simpa using hb _ _ (.slot .empty)
  | wanted => cases h
  | named name hc =>
    obtain ⟨s, hs, rfl⟩ := Option.map_eq_some_iff.1 h
    exact hb _ _ (.slot (.line (hc.line_of_settle (.atom (.var name)) hs)))
  | whole hc he =>
    obtain ⟨s, hs, rfl⟩ := Option.map_eq_some_iff.1 h
    exact hb _ _ (.slot (.line (hc.line_of_settle he hs)))

/-- A program that is read to the end is derived by all words. -/
theorem Reads.derives_of_judge {r : Reading} {ws us : List Token} (hr : Reads r ws) {p : Program}
    (h : r.judge (us.map Token.unplaced) = .program p) : Derives (ws ++ us) p := by
  induction us generalizing r ws with
  | nil =>
    simp only [List.map_nil, Reading.judge] at h
    split at h
    · cases h
      simpa using hr.program ‹_›
    · cases h
  | cons t us ih =>
    simp only [List.map_cons, Reading.judge] at h
    split at h
    · simpa using ih (hr.step ‹_›) h
    · cases h

/-- The parser returns only programs of the grammar. -/
theorem derives_of_judge {ws : List Token} {p : Program}
    (h : judge (ws.map Token.unplaced) = .program p) : Derives ws p :=
  Reads.start.derives_of_judge h

end Grammar

end RemoteEval.Script
