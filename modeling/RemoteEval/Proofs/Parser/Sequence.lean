import RemoteEval.Proofs.Lexer.Partition
import RemoteEval.Proofs.Lexer.Placement
import RemoteEval.Proofs.Parser.Depth
import RemoteEval.Proofs.Parser.Places

/-!
# Programs behind one another

Statements that are complete do not decide how what follows is read (`Reading.step_behind`), and a
separator behind a program begins a statement. So two programs with a separator between them, on a
line of its own, are one program, of which the second part stands further down (`parse_joined`).
Nothing of the first one stays open : a comment and a literal end with the line, and every bracket
of a program is closed.
-/

namespace RemoteEval.Script

/-! ## Behind other statements -/

namespace Reading

/-- A reading behind statements that are complete. -/
def behind (p : Program) (r : Reading) : Reading :=
  ⟨p ++ r.finished, r.stage⟩

variable (p : Program)

theorem goOn_behind (r : Reading) (stage : Option Stage) :
    (r.behind p).goOn stage = (r.goOn stage).map (behind p) := by
  cases stage <;> rfl

theorem stepWhole_behind (r : Reading) (frames : List Frame) (e : Expr) (t : Placed Token) :
    (r.behind p).stepWhole frames e t = (r.stepWhole frames e t).map (behind p) := by
  unfold stepWhole
  split
  · rfl
  · cases statement? (settle e frames).1 (settle e frames).2 with
    | none => rfl
    | some s => simp [behind]
  · split
    · rfl
    · exact r.goOn_behind p _
  · rfl

theorem stepNamed_behind (r : Reading) (frames : List Frame) (name : String) (offset : Nat)
    (t : Placed Token) :
    (r.behind p).stepNamed frames name offset t =
      (r.stepNamed frames name offset t).map (behind p) := by
  unfold stepNamed
  split
  · rfl
  · rfl
  · exact r.stepWhole_behind p _ _ t

/-- What was read before does not decide what a token does. -/
theorem step_behind (r : Reading) (t : Placed Token) :
    (r.behind p).step t = (r.step t).map (behind p) := by
  obtain ⟨finished, stage⟩ := r
  cases stage with
  | fresh =>
    simp only [step, behind]
    split
    · rfl
    · exact goOn_behind p ⟨finished, .fresh⟩ _
  | wanted frames => exact goOn_behind p ⟨finished, .wanted frames⟩ _
  | named frames name offset => exact stepNamed_behind p _ frames name offset t
  | whole frames e => exact stepWhole_behind p _ frames e t

theorem program_behind (r : Reading) :
    (r.behind p).program? = r.program?.map (p ++ ·) := by
  obtain ⟨finished, stage⟩ := r
  have last : ∀ s : Option Statement, s.map (fun s => p ++ finished ++ [s]) =
      (s.map fun s => finished ++ [s]).map (p ++ ·) := by
    intro s
    cases s <;> simp
  cases stage with
  | fresh => rfl
  | wanted => rfl
  | named => exact last _
  | whole => exact last _

/-- Behind other statements the same statements are read. -/
theorem judge_behind {r : Reading} {tokens : List (Placed Token)} {q : Program}
    (h : r.judge tokens = .program q) : (r.behind p).judge tokens = .program (p ++ q) := by
  induction tokens generalizing r with
  | nil =>
    have hp := r.program_behind p
    rw [judge] at h
    split at h <;> cases h
    next heq =>
    rw [heq] at hp
    rw [judge, hp]
    rfl
  | cons t rest ih =>
    have hs := r.step_behind p t
    rw [judge] at h
    split at h
    · next next heq =>
      rw [heq] at hs
      rw [judge, hs]
      exact ih h
    · cases h

/-- Behind a program a separator begins the next statement. -/
theorem step_semicolon {r : Reading} (h : r.program? = some p) (start stop : Nat) :
    r.step ⟨.mark .semicolon, start, stop⟩ = some ⟨p, .fresh⟩ := by
  obtain ⟨finished, stage⟩ := r
  have last : ∀ s : Option Statement, s.map (fun s => finished ++ [s]) = some p →
      s.map (fun s => (⟨finished ++ [s], .fresh⟩ : Reading)) = some ⟨p, .fresh⟩ := by
    intro s hs
    cases s with
    | none => cases hs
    | some s => cases hs; rfl
  cases stage with
  | fresh => cases h; rfl
  | wanted frames => cases h
  | named frames name offset =>
    have hlast := last (statement? (settle (.var name) frames).1 (settle (.var name) frames).2) h
    cases frames <;> exact hlast
  | whole frames e => exact last _ h

/-- Two programs with a separator between them are one program. -/
theorem judge_append_semicolon {r : Reading} {tokens others : List (Placed Token)} {q : Program}
    (h : r.judge tokens = .program p) (hothers : Script.judge others = .program q)
    (start stop : Nat) :
    r.judge (tokens ++ ⟨.mark .semicolon, start, stop⟩ :: others) = .program (p ++ q) := by
  induction tokens generalizing r with
  | nil =>
    rw [judge] at h
    split at h <;> cases h
    next heq =>
    rw [List.nil_append, judge, step_semicolon p heq]
    have hempty : Reading.start.behind p = ⟨p, .fresh⟩ := by
      rw [behind, Reading.start, List.append_nil]
    have hbehind := judge_behind p hothers
    rwa [hempty] at hbehind
  | cons t rest ih =>
    rw [judge] at h
    split at h
    · next next heq =>
      rw [List.cons_append, judge, heq]
      exact ih h
    · cases h

end Reading

/-! ## Sources -/

/-- What is read as a program closes all it opens. -/
theorem Grammar.Derives.depth_after {ts : List Token} {p : Program} (h : Derives ts p)
    (n : Nesting) : (n.after ts).depth = n.depth := by
  induction h generalizing n with
  | slot h => exact h.depth_after n
  | cons h _ ih =>
    rw [Nesting.after_append, Nesting.after_cons, ih]
    exact h.depth_after n

/-- A source is read as a program if its tokens stay within the limit and are read as one. -/
theorem parse_eq_ok_iff {source : List Char} {p : Program} :
    parse source = .ok p ↔ ∃ tokens, tokenize source = .ok tokens ∧
      Nesting.none.Fits (tokens.map Placed.item) ∧ judge tokens = .program p := by
  constructor
  · intro h
    obtain ⟨tokens, htokens⟩ := exists_tokenize_of_parse h
    refine ⟨tokens, htokens, (derives_of_parse htokens h).1, ?_⟩
    simp only [parse, htokens, parseTokens] at h
    split at h
    · cases h
    split at h <;> cases h
    assumption
  · rintro ⟨tokens, htokens, hfits, hjudge⟩
    have hdeep : firstTooDeep? tokens = none := Nesting.firstTooDeepFrom?_eq_none_iff.2 hfits
    simp only [parse, htokens, parseTokens, hdeep, hjudge]

theorem offset_le_of_parse {source : List Char} {p : Program} (h : parse source = .ok p) :
    ∀ offset ∈ p.flatMap Statement.offsets, offset ≤ width source := by
  obtain ⟨tokens, htokens, -, hjudge⟩ := parse_eq_ok_iff.1 h
  intro offset hoffset
  obtain ⟨t, ht, rfl⟩ := List.mem_map.1 (offsets_subset_of_judge hjudge hoffset)
  obtain ⟨-, hstart, hstop⟩ := (tokenize_eq_ok_iff.1 htokens).bounds t ht
  omega

/-- A separator on a line of its own between two texts. -/
def joined (us vs : List Char) : List Char :=
  us ++ '\n' :: ';' :: '\n' :: vs

theorem tokenize_joined {us vs : List Char} {tokens others : List (Placed Token)}
    (hus : tokenize us = .ok tokens) (hvs : tokenize vs = .ok others) :
    tokenize (joined us vs) = .ok (tokens ++
      ⟨.mark .semicolon, width us + 1, width us + 2⟩ ::
        others.map (Placed.moved (· + (width us + 3)))) := by
  have hseparator : tokenize [';'] = .ok [⟨.mark .semicolon, 0, 1⟩] := rfl
  have hbehind := tokenize_append_newline hseparator vs
  rw [hvs, List.singleton_append] at hbehind
  have hsame : (Placed.moved (· + (width us + 1)) ∘ Placed.moved (· + 2) :
      Placed Token → Placed Token) = Placed.moved (· + (width us + 3)) := by
    funext t
    simp only [Function.comp_apply, Placed.moved]
    congr 1 <;> omega
  rw [joined, tokenize_append_newline hus, hbehind, ← hsame, ← List.map_map]
  have hstop : 1 + (width us + 1) = width us + 2 := Nat.add_left_comm ..
  simp only [movedTokens, Except.map, Placed.moved, List.singleton_append, List.map_cons,
    Nat.zero_add, hstop]
  rfl

/-- Two programs with a separator between them are one program, of which the second part stands
further down. -/
theorem parse_joined {us vs : List Char} {p q : Program} (hp : parse us = .ok p)
    (hq : parse vs = .ok q) :
    parse (joined us vs) = .ok (p ++ q.moved (· + (width us + 3))) := by
  obtain ⟨tokens, htokens, hfits, hjudge⟩ := parse_eq_ok_iff.1 hp
  obtain ⟨others, hothers, hfits', hjudge'⟩ := parse_eq_ok_iff.1 hq
  refine parse_eq_ok_iff.2 ⟨_, tokenize_joined htokens hothers, ?_, ?_⟩
  · have hitems : (others.map (Placed.moved (· + (width us + 3)))).map Placed.item =
        others.map Placed.item := by
      rw [List.map_map]
      rfl
    have hclosed := (derives_of_parse htokens hp).2.depth_after .none
    have hsemicolon : (Nesting.none.after (tokens.map Placed.item)).step (.mark .semicolon) =
        .none := by
      change (⟨(Nesting.none.after (tokens.map Placed.item)).depth, 0⟩ : Nesting) = .none
      rw [hclosed]
      rfl
    rw [List.map_append, List.map_cons, hitems, Nesting.fits_append, Nesting.fits_cons, hsemicolon]
    exact ⟨hfits, Nat.zero_le _, hfits'⟩
  · have hmoved := Reading.judge_moved (· + (width us + 3)) (r := .start) hjudge'
      (fun t => t.stop + (width us + 3))
    exact Reading.judge_append_semicolon p hjudge hmoved _ _

end RemoteEval.Script
