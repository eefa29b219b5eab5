import RemoteEval.Proofs.Lexer.Newline
import RemoteEval.Proofs.Script.Offsets

/-!
# A text further down

Characters are read as the same tokens wherever they stand, at offsets that grow with what stands
before them (`tokensFrom_add`). Behind a text that scans and a newline they are read as they are
alone (`tokenize_append_newline`), whatever the text ends with : the newline closes a comment, and
never joins what stands on its two sides (`newline_separates`).

So do the positions of those offsets : a text behind a newline has the columns it has alone, and
lines that grow with the newlines before (`locate_behind`).
-/

namespace RemoteEval.Script

/-! ## Tokens -/

/-- What is read from characters, tokens or a fault, with every offset moved. -/
def movedTokens (move : Nat → Nat) :
    Except (Placed LexicalFault) (List (Placed Token)) →
      Except (Placed LexicalFault) (List (Placed Token))
  | .ok tokens => .ok (tokens.map (Placed.moved move))
  | .error f => .error (f.moved move)

/-- Characters that stand further down are read alike further down. -/
theorem tokensFrom_add (offset skip : Nat) (cs : List Char) (d : Nat) :
    tokensFrom (offset + d) skip cs = movedTokens (· + d) (tokensFrom offset skip cs) := by
  induction cs generalizing offset skip with
  | nil => cases skip <;> rfl
  | cons c cs ih =>
    have hnext : offset + d + c.utf8Size = offset + c.utf8Size + d := by omega
    cases skip with
    | succ skip => rw [tokensFrom, tokensFrom, hnext, ih]
    | zero =>
      have hstop (n : Nat) : offset + d + n = offset + n + d := Nat.add_right_comm ..
      simp only [tokensFrom, hnext, ih]
      cases (scan c cs).1 with
      | gap => rfl
      | token t =>
        rw [hstop]
        cases tokensFrom (offset + c.utf8Size) (scan c cs).2 cs <;> rfl
      | fault f =>
        rw [hstop]
        rfl

/-! ## Texts behind a newline -/

/-- What stands behind a text that scans and a newline is read as it is alone. -/
theorem tokenize_append_newline {t : List Char} {tokens : List (Placed Token)}
    (h : tokenize t = .ok tokens) (s : List Char) :
    tokenize (t ++ '\n' :: s) =
      (movedTokens (· + (width t + 1)) (tokenize s)).map (tokens ++ ·) := by
  have hmoved := tokensFrom_add 0 0 s (width t + 1)
  rw [← Nat.add_assoc] at hmoved
  rw [tokenize, tokensFrom_append_newline (Nat.zero_le _) h, hmoved, tokenize]

/-- A newline never joins tokens. Behind a text that scans and a newline a further text scans just
when it does alone, as its own tokens behind those of the first text. If it fails, it fails with
its own fault. What is read from the further text moves by the octets before it. -/
theorem newline_separates {t : List Char} {tokens : List (Placed Token)}
    (h : tokenize t = .ok tokens) (s : List Char) :
    ((∃ all, tokenize (t ++ '\n' :: s) = .ok all) ↔ ∃ others, tokenize s = .ok others) ∧
      (∀ others, tokenize s = .ok others → tokenize (t ++ '\n' :: s) =
        .ok (tokens ++ others.map (Placed.moved (· + (width t + 1))))) ∧
      ∀ f, tokenize s = .error f →
        tokenize (t ++ '\n' :: s) = .error (f.moved (· + (width t + 1))) := by
  rw [tokenize_append_newline h]
  cases tokenize s with
  | ok others =>
    refine ⟨⟨fun _ => ⟨others, rfl⟩, fun _ => ⟨_, rfl⟩⟩, ?_, fun f hf => (nomatch hf)⟩
    rintro _ ⟨⟩
    rfl
  | error f =>
    refine ⟨⟨fun ⟨_, hall⟩ => (nomatch hall), fun ⟨_, hs⟩ => (nomatch hs)⟩,
      fun others hs => (nomatch hs), ?_⟩
    rintro _ ⟨⟩
    rfl

/-- Two halves of one operator stay apart, and a comment does not reach what stands behind it. -/
theorem newline_separates_halves :
    tokenize "a =// b".toList = .ok [⟨.name "a", 0, 1⟩, ⟨.mark .assign, 2, 3⟩] ∧
      tokenize "=".toList = .ok [⟨.mark .assign, 0, 1⟩] ∧
      tokenize "a =// b\n=".toList =
        .ok [⟨.name "a", 0, 1⟩, ⟨.mark .assign, 2, 3⟩, ⟨.mark .assign, 8, 9⟩] ∧
      tokenize "\"".toList = .error ⟨.unterminated, 0, 1⟩ ∧
      tokenize "a =// b\n\"".toList = .error ⟨.unterminated, 8, 9⟩ := by
  have hfirst : tokenize "a =// b".toList =
      .ok [⟨.name "a", 0, 1⟩, ⟨.mark .assign, 2, 3⟩] := by decide
  have hsecond : tokenize "=".toList = .ok [⟨.mark .assign, 0, 1⟩] := by decide
  have hopen : tokenize "\"".toList = .error ⟨.unterminated, 0, 1⟩ := by decide
  exact ⟨hfirst, hsecond, (newline_separates hfirst "=".toList).2.1 _ hsecond, hopen,
    (newline_separates hfirst "\"".toList).2.2 _ hopen⟩

/-! ## Positions -/

/-- The position of what stands some lines further down. -/
def Position.below (lines : Nat) (p : Position) : Position :=
  ⟨p.line + lines, p.column⟩

namespace Position

theorem below_zero (p : Position) : p.below 0 = p := rfl

theorem advance_below (lines : Nat) (p : Position) (c : Char) :
    (p.below lines).advance c = (p.advance c).below lines := by
  unfold advance below
  split
  · rw [Nat.add_right_comm]
  · rfl

theorem locateFrom_below (lines : Nat) (p : Position) (cs : List Char) (offset : Nat) :
    locateFrom (p.below lines) cs offset = (locateFrom p cs offset).below lines := by
  induction cs generalizing p offset with
  | nil => rfl
  | cons c cs ih =>
    rw [locateFrom, locateFrom]
    split
    · rw [advance_below, ih]
    · rfl

/-- Offsets behind a text are counted from the position after it. -/
theorem locateFrom_append (p : Position) (us vs : List Char) (offset : Nat) :
    locateFrom p (us ++ vs) (width us + offset) = locateFrom (us.foldl advance p) vs offset := by
  induction us generalizing p with
  | nil => rw [List.nil_append, width_nil, Nat.zero_add, List.foldl_nil]
  | cons c us ih =>
    rw [List.cons_append, locateFrom, width_cons, if_pos (by omega), Nat.add_assoc,
      Nat.add_sub_cancel_left, ih, List.foldl_cons]

theorem locateFrom_zero (p : Position) (cs : List Char) : locateFrom p cs 0 = p := by
  cases cs with
  | nil => rfl
  | cons c cs => exact if_neg (Nat.not_le.2 c.utf8Size_pos)

/-- Offsets within a text do not depend on what stands behind it. -/
theorem locateFrom_append_of_le (p : Position) (us vs : List Char) {offset : Nat}
    (h : offset ≤ width us) : locateFrom p (us ++ vs) offset = locateFrom p us offset := by
  induction us generalizing p offset with
  | nil =>
    obtain rfl : offset = 0 := Nat.le_zero.1 h
    rw [locateFrom_zero, locateFrom_zero]
  | cons c us ih =>
    rw [List.cons_append, locateFrom, locateFrom]
    split
    · rw [width_cons] at h
      exact ih _ (by omega)
    · rfl

theorem line_foldl_advance (p : Position) (us : List Char) :
    (us.foldl advance p).line = p.line + us.count '\n' := by
  induction us generalizing p with
  | nil => rfl
  | cons c us ih =>
    rw [List.foldl_cons, ih, List.count_cons, advance]
    split
    · next h => simp [h, Nat.add_comm, Nat.add_left_comm]
    · next h => simp [h]

/-- A text behind a newline has its own columns, and lines that grow with the newlines before. -/
theorem locate_behind (us vs : List Char) (offset : Nat) :
    locate (us ++ '\n' :: vs) (offset + (width us + 1)) =
      (locate vs offset).below (us.count '\n' + 1) := by
  have hwidth : offset + (width us + 1) = width (us ++ ['\n']) + offset := by
    rw [width_append]
    exact Nat.add_comm _ _
  have horigin : (us ++ ['\n']).foldl advance origin = origin.below (us.count '\n' + 1) := by
    rw [List.foldl_append, List.foldl_cons, List.foldl_nil, advance, if_pos rfl,
      line_foldl_advance]
    rfl
  rw [locate, List.append_cons, hwidth, locateFrom_append, horigin, locateFrom_below, locate]

theorem locate_append_of_le (us vs : List Char) {offset : Nat} (h : offset ≤ width us) :
    locate (us ++ vs) offset = locate us offset :=
  locateFrom_append_of_le origin us vs h

end Position

end RemoteEval.Script
