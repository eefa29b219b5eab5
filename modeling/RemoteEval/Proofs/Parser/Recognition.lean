import Mathlib
import RemoteEval.Proofs.Parser.ViablePrefix
import RemoteEval.Script.Parse

/-!
# Sources and the grammar

What reading a source says of its words : a program if they derive one (`parse_eq_ok_iff_derives`),
incomplete if they are the beginning of one, and otherwise the first word with which no program
goes on (`parse_eq_incomplete_iff_properPrefix`). Both are about sources that scan and are not
nested too deeply, of which the parser decides.
-/

namespace RemoteEval.Script

open Grammar

variable {source : List Char} {tokens : List (Placed Token)}

theorem parse_of_tokenize (ht : tokenize source = .ok tokens) (hn : firstTooDeep? tokens = none) :
    parse source =
      match judge tokens with
      | .program p => .ok p
      | .incomplete => .error .incomplete
      | .unexpected t =>
        .error (.malformed (Position.locate source t.start) (.unexpected t.item)) := by
  cases hj : judge tokens <;> simp only [parse, ht, parseTokens, hn, hj]

theorem means_judge (tokens : List (Placed Token)) : Means [] tokens (judge tokens) :=
  After.judge (r := .start) .start tokens

/-- A source is read as a program, offsets aside, exactly if its words derive that program ; and
no words derive two. -/
theorem parse_eq_ok_iff_derives (ht : tokenize source = .ok tokens)
    (hn : firstTooDeep? tokens = none) :
    (∀ p, (∃ q, parse source = .ok q ∧ q.unplaced = p) ↔ Derives (tokens.map Placed.item) p) ∧
      ∀ ws p q, Derives ws p → Derives ws q → p = q := by
  refine ⟨fun p => ?_, fun _ _ _ => Derives.unique⟩
  have hm := means_judge tokens
  rw [parse_of_tokenize ht hn]
  cases hj : judge tokens with
  | program q =>
    rw [hj] at hm
    constructor
    · rintro ⟨_, ⟨⟩, rfl⟩
      exact hm
    · exact fun h => ⟨q, rfl, Derives.unique hm h⟩
  | incomplete =>
    rw [hj] at hm
    constructor
    · rintro ⟨_, ⟨⟩, -⟩
    · exact fun h => (hm.2 p h).elim
  | unexpected t =>
    rw [hj] at hm
    obtain ⟨before, after, rfl, -, hn⟩ := hm
    constructor
    · rintro ⟨_, ⟨⟩, -⟩
    · exact fun h => (hn ⟨after.map Placed.item, p, by simpa using h⟩).elim

/-- Signs, an index, an empty statement and a comma behind the last argument. -/
theorem parse_iff_derives_index_and_call :
    ∃ tokens, tokenize "y = -x[0] * 2 - 3;;\nf(1,)".toList = .ok tokens ∧
      firstTooDeep? tokens = none ∧
      ∀ p, (∃ q, parse "y = -x[0] * 2 - 3;;\nf(1,)".toList = .ok q ∧ q.unplaced = p) ↔
        Derives (tokens.map Placed.item) p := by
  have ht : tokenize "y = -x[0] * 2 - 3;;\nf(1,)".toList = .ok
      [⟨.name "y", 0, 1⟩, ⟨.mark .assign, 2, 3⟩, ⟨.mark .minus, 4, 5⟩, ⟨.name "x", 5, 6⟩,
        ⟨.mark .openBracket, 6, 7⟩, ⟨.int 0, 7, 8⟩, ⟨.mark .closeBracket, 8, 9⟩,
        ⟨.mark .star, 10, 11⟩, ⟨.int 2, 12, 13⟩, ⟨.mark .minus, 14, 15⟩, ⟨.int 3, 16, 17⟩,
        ⟨.mark .semicolon, 17, 18⟩, ⟨.mark .semicolon, 18, 19⟩, ⟨.name "f", 20, 21⟩,
        ⟨.mark .openParen, 21, 22⟩, ⟨.int 1, 22, 23⟩, ⟨.mark .comma, 23, 24⟩,
        ⟨.mark .closeParen, 24, 25⟩] := by cbv
  exact ⟨_, ht, by decide, (parse_eq_ok_iff_derives ht (by decide)).1⟩

/-- The words are the beginning of a program, and more words follow in it. -/
def Grammar.ProperPrefix (ws : List Token) : Prop :=
  ∃ more p, more ≠ [] ∧ Derives (ws ++ more) p

theorem Grammar.Viable.properPrefix {ws : List Token} (h : Viable ws)
    (hp : ∀ p, ¬Derives ws p) : ProperPrefix ws := by
  obtain ⟨more, p, h⟩ := h
  refine ⟨more, p, ?_, h⟩
  rintro rfl
  exact hp p (by simpa using h)

theorem Grammar.Viable.of_append {ws us : List Token} (h : Viable (ws ++ us)) : Viable ws := by
  obtain ⟨more, p, h⟩ := h
  exact ⟨us ++ more, p, by simpa using h⟩

/-- A source whose words are no program is incomplete exactly if they are the beginning of one.
Otherwise it is malformed at the first word with which no program goes on, and the message names
that word. -/
theorem parse_eq_incomplete_iff_properPrefix (ht : tokenize source = .ok tokens)
    (hn : firstTooDeep? tokens = none) (hp : ∀ p, ¬Derives (tokens.map Placed.item) p) :
    (parse source = .error .incomplete ↔ ProperPrefix (tokens.map Placed.item)) ∧
      (¬ProperPrefix (tokens.map Placed.item) → ∃ i t, tokens[i]? = some t ∧
        ¬Viable ((tokens.map Placed.item).take (i + 1)) ∧
        (∀ j < i, Viable ((tokens.map Placed.item).take (j + 1))) ∧
        ∃ cause, parse source = .error (.malformed (Position.locate source t.start) cause) ∧
          cause.message = "unexpected " ++ t.item.shown) := by
  have hm := means_judge tokens
  rw [parse_of_tokenize ht hn]
  cases hj : judge tokens with
  | program p =>
    rw [hj] at hm
    exact (hp _ hm).elim
  | incomplete =>
    rw [hj] at hm
    have hv := Viable.properPrefix hm.1 hm.2
    exact ⟨⟨fun _ => hv, fun _ => rfl⟩, fun h => (h hv).elim⟩
  | unexpected t =>
    rw [hj] at hm
    obtain ⟨before, after, rfl, hv, hn⟩ := hm
    have hwords : (before ++ t :: after).map Placed.item =
        before.map Placed.item ++ [t.item] ++ after.map Placed.item := by simp
    have hnot : ¬ProperPrefix ((before ++ t :: after).map Placed.item) := by
      rintro ⟨more, p, -, h⟩
      rw [hwords, List.append_assoc] at h
      exact hn ⟨_, p, h⟩
    refine ⟨⟨by simp, fun h => (hnot h).elim⟩, fun _ => ⟨before.length, t, by simp, ?_, ?_, _,
      rfl, rfl⟩⟩
    · rw [hwords, List.take_left' (by simp)]
      exact hn
    · intro j hj
      rw [hwords, List.append_assoc, List.take_append_of_le_length (by simp; omega)]
      rw [List.nil_append, ← List.take_append_drop (j + 1) (before.map Placed.item)] at hv
      exact hv.of_append

/-- Two values in a row, in a list that is still open. -/
theorem parse_incomplete_iff_two_values :
    ∃ tokens, tokenize "a = [1,\n2 3".toList = .ok tokens ∧ firstTooDeep? tokens = none ∧
      (∀ p, ¬Derives (tokens.map Placed.item) p) ∧
      (parse "a = [1,\n2 3".toList = .error .incomplete ↔
        ProperPrefix (tokens.map Placed.item)) := by
  have ht : tokenize "a = [1,\n2 3".toList = .ok
      [⟨.name "a", 0, 1⟩, ⟨.mark .assign, 2, 3⟩, ⟨.mark .openBracket, 4, 5⟩, ⟨.int 1, 5, 6⟩,
        ⟨.mark .comma, 6, 7⟩, ⟨.int 2, 8, 9⟩, ⟨.int 3, 10, 11⟩] := by cbv
  have hp : ∀ p, ¬Derives [.name "a", .mark .assign, .mark .openBracket, .int 1, .mark .comma,
      .int 2, .int 3] p := by
    intro p h
    cases judge_eq_program.2 h
  exact ⟨_, ht, by decide, hp, (parse_eq_incomplete_iff_properPrefix ht (by decide) hp).1⟩

end RemoteEval.Script
