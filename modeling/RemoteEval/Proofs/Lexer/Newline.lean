import RemoteEval.Script.Lexer
import RemoteEval.Proofs.Text.Lines

/-!
# A newline between two texts

No lexeme but a gap or an open literal goes on over a newline (`scan_append_newline`), so that a
text that scans and a further text behind a newline scan as they do alone
(`tokensFrom_append_newline`). Where a text ends inside a literal, the tokens before the literal
stay what they are, and the literal starts over with what follows (`OpensAt`,
`opensAt_of_unterminated`).
-/

namespace RemoteEval.Script

variable {c : Char} {cs : List Char}

/-! ## Lexemes -/

theorem takeWhile_append_newline {p : Char → Bool} (hp : p '\n' = false) (cs s : List Char) :
    (cs ++ '\n' :: s).takeWhile p = cs.takeWhile p := by
  induction cs with
  | nil => simp [hp]
  | cons c cs ih => simp [List.takeWhile_cons, ih]

theorem length_takeWhile_le (p : Char → Bool) (cs : List Char) :
    (cs.takeWhile p).length ≤ cs.length :=
  List.IsPrefix.length_le (List.takeWhile_prefix p)

theorem scanNumber_append_newline (c : Char) (cs s : List Char) :
    scanNumber c (cs ++ '\n' :: s) = scanNumber c cs := by
  unfold scanNumber
  rw [takeWhile_append_newline (by decide)]
  simp only [List.drop_append_of_le_length (length_takeWhile_le isDigitPart cs)]
  generalize cs.drop (cs.takeWhile isDigitPart).length = rest
  match rest with
  | [] => rfl
  | [d] =>
    by_cases hd : d = '.'
    · subst hd
      rfl
    · simp [hd]
  | d :: e :: more =>
    by_cases hd : d = '.'
    · subst hd
      simp only [List.cons_append, takeWhile_append_newline (by decide : isDigitPart '\n' = false)]
    · simp [hd]

theorem pair?_newline (c : Char) : Mark.pair? c '\n' = none := by
  unfold Mark.pair?
  split <;> simp_all

theorem scanMark_append_newline (c : Char) (cs s : List Char) :
    scanMark c (cs ++ '\n' :: s) = scanMark c cs := by
  cases cs with
  | nil => simp [scanMark, pair?_newline]
  | cons => rfl

/-! ## Literals -/

variable {quote : Char} {body : List Char}

@[simp]
theorem literalBody?_quote (cs : List Char) : literalBody? quote (quote :: cs) = some [] := by
  cases cs <;> simp [literalBody?]

theorem literalBody?_plain (hq : c ≠ quote) (hb : c ≠ '\\') (cs : List Char) :
    literalBody? quote (c :: cs) = (literalBody? quote cs).map (c :: ·) := by
  cases cs <;> simp [literalBody?, hq, hb]

theorem literalBody?_append (h : literalBody? quote cs = some body) (s : List Char) :
    literalBody? quote (cs ++ s) = some body := by
  fun_induction literalBody? quote cs generalizing body with
  | case1 => cases h
  | case2 rest =>
    rw [List.cons_append, literalBody?_quote]
    exact h
  | case3 => cases h
  | case4 => cases h
  | case5 d more hq hd ih =>
    obtain ⟨tail, ht, rfl⟩ := Option.map_eq_some_iff.1 h
    simp [literalBody?, hq, hd, ih ht]
  | case6 c rest hq hb ih =>
    obtain ⟨tail, ht, rfl⟩ := Option.map_eq_some_iff.1 h
    rw [List.cons_append, literalBody?_plain hq hb, ih ht]
    rfl

theorem length_literalBody?_lt (h : literalBody? quote cs = some body) :
    body.length < cs.length := by
  fun_induction literalBody? quote cs generalizing body with
  | case1 => cases h
  | case2 rest =>
    cases h
    simp
  | case3 => cases h
  | case4 => cases h
  | case5 d more hq hd ih =>
    obtain ⟨tail, ht, rfl⟩ := Option.map_eq_some_iff.1 h
    simpa using ih ht
  | case6 c rest hq hb ih =>
    obtain ⟨tail, ht, rfl⟩ := Option.map_eq_some_iff.1 h
    simpa using ih ht

theorem map_eq_error_iff {α β ε : Type} {f : α → β} {x : Except ε α} {e : ε} :
    x.map f = .error e ↔ x = .error e := by
  cases x <;> simp [Except.map]

theorem map_eq_ok_iff {α β ε : Type} {f : α → β} {x : Except ε α} {b : β} :
    x.map f = .ok b ↔ ∃ a, x = .ok a ∧ f a = b := by
  cases x <;> simp [Except.map]

theorem unescape_plain (hb : c ≠ '\\') (cs : List Char) :
    unescape (c :: cs) = (unescape cs).map (c :: ·) := by
  cases cs <;> simp [unescape, hb]

/-- A backslash between quotes always takes a character with it, so that no closed literal is
unterminated. -/
theorem unescape_ne_unterminated (h : literalBody? quote cs = some body) :
    unescape body ≠ .error .unterminated := by
  fun_induction literalBody? quote cs generalizing body with
  | case1 => cases h
  | case2 rest =>
    cases h
    simp [unescape]
  | case3 => cases h
  | case4 => cases h
  | case5 d more hq hd ih =>
    obtain ⟨tail, ht, rfl⟩ := Option.map_eq_some_iff.1 h
    have htail := ih ht
    cases he : escape? d with
    | none => simp [unescape, he]
    | some e =>
      simp only [unescape, if_true, he]
      rwa [ne_eq, map_eq_error_iff]
  | case6 c rest hq hb ih =>
    obtain ⟨tail, ht, rfl⟩ := Option.map_eq_some_iff.1 h
    rw [unescape_plain hb, ne_eq, map_eq_error_iff]
    exact ih ht

theorem scanLiteral_eq_unterminated_iff {lexeme : List Char → Lexeme}
    (hl : ∀ body, lexeme body = .fault .unterminated → unescape body = .error .unterminated) :
    (scanLiteral quote lexeme cs).1 = .fault .unterminated ↔ literalBody? quote cs = none := by
  unfold scanLiteral
  cases hb : literalBody? quote cs with
  | none => simp
  | some body =>
    simp only [reduceCtorEq, iff_false]
    exact fun h => unescape_ne_unterminated hb (hl body h)

theorem textLiteral_unterminated (h : textLiteral body = .fault .unterminated) :
    unescape body = .error .unterminated := by
  unfold textLiteral at h
  split at h <;> simp_all

theorem characterLiteral_unterminated (h : characterLiteral body = .fault .unterminated) :
    unescape body = .error .unterminated := by
  unfold characterLiteral at h
  split at h <;> simp_all

/-! ## The scanner -/

theorem wholeNumber_ne_unterminated (digits : List Char) :
    wholeNumber digits ≠ .fault .unterminated := by
  unfold wholeNumber
  split <;> simp

theorem scanNumber_ne_unterminated (c : Char) (cs : List Char) :
    (scanNumber c cs).1 ≠ .fault .unterminated := by
  unfold scanNumber
  simp only
  split
  · split
    · simp
    · exact wholeNumber_ne_unterminated _
  · exact wholeNumber_ne_unterminated _

theorem scanMark_ne_unterminated (c : Char) (cs : List Char) :
    (scanMark c cs).1 ≠ .fault .unterminated := by
  unfold scanMark
  split
  · simp
  · split <;> simp

/-- Only a literal is unterminated : one whose closing quote does not come. -/
theorem scan_eq_unterminated (h : (scan c cs).1 = .fault .unterminated) :
    (c = '"' ∨ c = '\'') ∧ literalBody? c cs = none := by
  unfold scan at h
  split at h
  · cases h
  split at h
  · cases h
  split at h
  · exact (scanNumber_ne_unterminated c cs h).elim
  split at h
  · cases h
  split at h
  · next hq =>
    subst hq
    exact ⟨.inl rfl, (scanLiteral_eq_unterminated_iff fun _ => textLiteral_unterminated).1 h⟩
  split at h
  · next hq =>
    subst hq
    exact ⟨.inr rfl, (scanLiteral_eq_unterminated_iff fun _ => characterLiteral_unterminated).1 h⟩
  · exact (scanMark_ne_unterminated c cs h).elim

theorem scanLiteral_append {lexeme : List Char → Lexeme}
    (h : (scanLiteral quote lexeme cs).1 ≠ .fault .unterminated) (s : List Char) :
    scanLiteral quote lexeme (cs ++ s) = scanLiteral quote lexeme cs := by
  unfold scanLiteral at h ⊢
  cases hb : literalBody? quote cs with
  | none => simp [hb] at h
  | some body => rw [literalBody?_append hb]

theorem head?_append_newline_eq_slash (cs s : List Char) :
    (cs ++ '\n' :: s).head? = some '/' ↔ cs.head? = some '/' := by
  cases cs <;> simp

theorem scan_append_newline (hc : isGap c = false) (hu : (scan c cs).1 ≠ .fault .unterminated)
    (s : List Char) : scan c (cs ++ '\n' :: s) = scan c cs := by
  by_cases ht : c = '"'
  · subst ht
    exact scanLiteral_append hu _
  by_cases hq : c = '\''
  · subst hq
    exact scanLiteral_append hu _
  unfold scan
  simp only [hc, ht, hq, head?_append_newline_eq_slash, scanNumber_append_newline,
    scanMark_append_newline, takeWhile_append_newline (p := isNamePart) (by decide),
    takeWhile_append_newline (p := fun c => decide (c ≠ '\n')) (by decide), if_false,
    Bool.false_eq_true]

theorem scanNumber_snd_le (c : Char) (cs : List Char) : (scanNumber c cs).2 ≤ cs.length := by
  have hrun := length_takeWhile_le isDigitPart cs
  unfold scanNumber
  simp only
  split
  · next d more hdrop =>
    split
    · have hlen := congrArg List.length hdrop
      have hmore := length_takeWhile_le isDigitPart more
      simp only [List.length_drop, List.length_cons] at hlen ⊢
      omega
    · exact hrun
  · exact hrun

theorem openBody_plain (hq : c ≠ quote) (hb : c ≠ '\\') (cs : List Char) :
    openBody quote (c :: cs) = c :: openBody quote cs := by
  cases cs <;> simp [openBody, hq, hb]

theorem openBody_isPrefix (quote : Char) (cs : List Char) : openBody quote cs <+: cs := by
  fun_induction openBody quote cs with
  | case1 => exact List.prefix_refl _
  | case2 => exact List.nil_prefix
  | case3 => exact List.prefix_refl _
  | case4 => exact ⟨_, rfl⟩
  | case5 d more _ _ ih => simpa using ih
  | case6 c rest _ _ ih => simpa using ih

theorem scanLiteral_snd_le (lexeme : List Char → Lexeme) (cs : List Char) :
    (scanLiteral quote lexeme cs).2 ≤ cs.length := by
  unfold scanLiteral
  split
  · next body hb => exact length_literalBody?_lt hb
  · exact (openBody_isPrefix quote cs).length_le

theorem scanMark_snd_le (c : Char) (cs : List Char) : (scanMark c cs).2 ≤ cs.length := by
  unfold scanMark
  split
  · next hb =>
    cases cs with
    | nil => simp at hb
    | cons => simp
  · split <;> simp

theorem scan_snd_le (c : Char) (cs : List Char) : (scan c cs).2 ≤ cs.length := by
  unfold scan
  split
  · exact length_takeWhile_le _ cs
  split
  · exact length_takeWhile_le _ cs
  split
  · exact scanNumber_snd_le c cs
  split
  · exact length_takeWhile_le _ cs
  split
  · exact scanLiteral_snd_le _ cs
  split
  · exact scanLiteral_snd_le _ cs
  · exact scanMark_snd_le c cs

/-! ## Sources -/

variable {offset skip start stop : Nat} {tokens : List (Placed Token)}

theorem scan_gap (hc : isGap c = true) (cs : List Char) :
    scan c cs = (.gap, (cs.takeWhile isGap).length) := by
  unfold scan
  rw [if_pos hc]

theorem tokensFrom_takeWhile_isGap (offset : Nat) (cs : List Char) :
    tokensFrom offset (cs.takeWhile isGap).length cs = tokensFrom offset 0 cs := by
  cases cs with
  | nil => rfl
  | cons c cs =>
    cases hc : isGap c with
    | false => rw [List.takeWhile_cons_of_neg (by simp [hc]), List.length_nil]
    | true =>
      rw [List.takeWhile_cons_of_pos hc, List.length_cons]
      simp only [tokensFrom, scan_gap hc]

/-- Blanks may be dropped one by one. -/
theorem tokensFrom_gap (hc : isGap c = true) (offset : Nat) (cs : List Char) :
    tokensFrom offset 0 (c :: cs) = tokensFrom (offset + c.utf8Size) 0 cs := by
  rw [← tokensFrom_takeWhile_isGap offset (c :: cs), List.takeWhile_cons_of_pos hc,
    List.length_cons]
  exact tokensFrom_takeWhile_isGap _ cs

theorem tokensFrom_newline (offset : Nat) (s : List Char) :
    tokensFrom offset 0 ('\n' :: s) = tokensFrom (offset + 1) 0 s :=
  tokensFrom_gap rfl offset s

@[simp]
theorem width_nil : width [] = 0 := rfl

@[simp]
theorem width_cons (c : Char) (cs : List Char) : width (c :: cs) = c.utf8Size + width cs := rfl

theorem width_append (cs ds : List Char) : width (cs ++ ds) = width cs + width ds := by
  induction cs with
  | nil => simp
  | cons c cs ih => simp [ih, Nat.add_assoc]

theorem width_pos (h : cs ≠ []) : 0 < width cs := by
  cases cs with
  | nil => exact absurd rfl h
  | cons c cs =>
    have hc := c.utf8Size_pos
    rw [width_cons]
    omega

theorem eq_nil_of_width (h : width cs = 0) : cs = [] := by
  by_cases hcs : cs = []
  · exact hcs
  · exact absurd h (Nat.ne_of_gt (width_pos hcs))

theorem tokensFrom_skip (offset : Nat) (us vs : List Char) :
    tokensFrom offset us.length (us ++ vs) = tokensFrom (offset + width us) 0 vs := by
  induction us generalizing offset with
  | nil => rfl
  | cons c us ih =>
    rw [width_cons, ← Nat.add_assoc]
    exact ih _

theorem tokensFrom_gaps {us : List Char} (h : ∀ c ∈ us, isGap c = true) (offset : Nat)
    (vs : List Char) : tokensFrom offset 0 (us ++ vs) = tokensFrom (offset + width us) 0 vs := by
  induction us generalizing offset with
  | nil => rfl
  | cons c us ih =>
    obtain ⟨hc, hus⟩ := List.forall_mem_cons.1 h
    rw [List.cons_append, tokensFrom_gap hc, ih hus, width_cons, Nat.add_assoc]

/-- A comment is dropped up to the newline behind it, or up to the end. -/
theorem tokensFrom_comment {body rest : List Char} (hbody : '\n' ∉ body)
    (hrest : ∀ c ∈ rest.head?, c = '\n') (offset : Nat) :
    tokensFrom offset 0 ('/' :: '/' :: body ++ rest) =
      tokensFrom (offset + width ('/' :: '/' :: body)) 0 rest := by
  have hrun : ('/' :: body ++ rest).takeWhile (· ≠ '\n') = '/' :: body := by
    refine Text.takeWhile_append_of_head? ?_ fun c hc => by simp [hrest c hc]
    intro c hc
    rw [decide_eq_true_eq]
    rintro rfl
    exact hbody (by simpa using hc)
  have hscan : scan '/' ('/' :: body ++ rest) =
      (.gap, (('/' :: body ++ rest).takeWhile (· ≠ '\n')).length) := rfl
  rw [hrun] at hscan
  rw [List.cons_append, width_cons, ← Nat.add_assoc, ← tokensFrom_skip]
  simp only [tokensFrom, hscan]

/-- Reading on where a lexeme starts that the newline does not change. -/
theorem tokensFrom_append_cons (hc : isGap c = false)
    (hu : (scan c cs).1 ≠ .fault .unterminated) (offset : Nat) (s : List Char) :
    tokensFrom offset 0 (c :: cs ++ '\n' :: s) =
      match (scan c cs).1 with
      | .gap => tokensFrom (offset + c.utf8Size) (scan c cs).2 (cs ++ '\n' :: s)
      | .token t =>
        (tokensFrom (offset + c.utf8Size) (scan c cs).2 (cs ++ '\n' :: s)).map
          (⟨t, offset, offset + width (c :: cs.take (scan c cs).2)⟩ :: ·)
      | .fault f => .error ⟨f, offset, offset + width (c :: cs.take (scan c cs).2)⟩ := by
  rw [List.cons_append]
  simp only [tokensFrom, scan_append_newline hc hu,
    List.take_append_of_le_length (scan_snd_le c cs)]
  cases (scan c cs).1 with
  | gap => rfl
  | token t =>
    cases tokensFrom (offset + c.utf8Size) (scan c cs).2 (cs ++ '\n' :: s) <;> rfl
  | fault f => rfl

/-- A text that scans and a further text behind a newline scan as they do alone. -/
theorem tokensFrom_append_newline {t : List Char} (hskip : skip ≤ t.length)
    (h : tokensFrom offset skip t = .ok tokens) (s : List Char) :
    tokensFrom offset skip (t ++ '\n' :: s) =
      (tokensFrom (offset + width t + 1) 0 s).map (tokens ++ ·) := by
  induction t generalizing offset skip tokens with
  | nil =>
    obtain rfl : skip = 0 := by simpa using hskip
    cases h
    rw [List.nil_append, tokensFrom_newline, width_nil, Nat.add_zero]
    cases tokensFrom (offset + 1) 0 s <;> rfl
  | cons c cs ih =>
    have hwidth : offset + width (c :: cs) + 1 = offset + c.utf8Size + width cs + 1 := by
      rw [width_cons]
      omega
    rw [hwidth]
    cases skip with
    | succ skip => exact ih (by simpa using hskip) h
    | zero =>
      cases hc : isGap c with
      | true =>
        rw [tokensFrom_gap hc] at h
        rw [List.cons_append, tokensFrom_gap hc]
        exact ih (Nat.zero_le _) h
      | false =>
        have hu : (scan c cs).1 ≠ .fault .unterminated := by
          intro hu
          simp [tokensFrom, hu] at h
        rw [tokensFrom_append_cons hc hu]
        have hle := scan_snd_le c cs
        simp only [tokensFrom] at h
        cases hs : (scan c cs).1 with
        | gap =>
          rw [hs] at h
          exact ih hle h
        | token t =>
          rw [hs] at h
          cases hr : tokensFrom (offset + c.utf8Size) (scan c cs).2 cs with
          | error f => simp [hr] at h
          | ok rest =>
            simp only [hr, Except.ok.injEq] at h
            subst h
            simp only [ih hle hr]
            cases tokensFrom (offset + c.utf8Size + width cs + 1) 0 s <;> rfl
        | fault f =>
          rw [hs] at h
          cases h

/-- Reading from `offset` ends inside a literal that starts behind `before`, and behind a newline
goes on from the quote of that literal. -/
structure OpensAt (offset skip : Nat) (t : List Char) (start : Nat) (before : List Char)
    (quote : Char) (body : List Char) : Prop where
  /-- Where the literal stands in the text. -/
  text : t = before ++ quote :: body
  /-- Where the literal stands in the source. -/
  place : start = offset + width before
  /-- A literal starts with a quote. -/
  isQuote : quote = '"' ∨ quote = '\''
  /-- The closing quote does not come. -/
  unclosed : literalBody? quote body = none
  /-- What is read before the literal does not change. -/
  resumes : ∃ tokens, ∀ s, tokensFrom offset skip (t ++ '\n' :: s) =
    (tokensFrom start 0 (quote :: body ++ '\n' :: s)).map (tokens ++ ·)

theorem map_nil_append {ε α : Type} (x : Except ε (List α)) : x.map ([] ++ ·) = x := by
  cases x <;> rfl

theorem map_append_append {ε α : Type} (us vs : List α) (x : Except ε (List α)) :
    (x.map (vs ++ ·)).map (us ++ ·) = x.map (us ++ vs ++ ·) := by
  cases x <;> simp [Except.map]

theorem OpensAt.cons {more : Nat} {before : List Char} (tokens : List (Placed Token))
    (h : OpensAt (offset + c.utf8Size) more cs start before quote body)
    (hs : ∀ s, tokensFrom offset skip (c :: cs ++ '\n' :: s) =
      (tokensFrom (offset + c.utf8Size) more (cs ++ '\n' :: s)).map (tokens ++ ·)) :
    OpensAt offset skip (c :: cs) start (c :: before) quote body where
  text := by rw [h.text, List.cons_append]
  place := by rw [h.place, width_cons, Nat.add_assoc]
  isQuote := h.isQuote
  unclosed := h.unclosed
  resumes := by
    obtain ⟨read, hread⟩ := h.resumes
    refine ⟨tokens ++ read, fun s => ?_⟩
    rw [hs, hread, map_append_append]

theorem opensAt_of_unterminated {t : List Char}
    (h : tokensFrom offset skip t = .error ⟨.unterminated, start, stop⟩) :
    ∃ before quote body, OpensAt offset skip t start before quote body := by
  induction t generalizing offset skip with
  | nil => cases skip <;> cases h
  | cons c cs ih =>
    cases skip with
    | succ skip =>
      obtain ⟨before, quote, body, ho⟩ := ih h
      exact ⟨_, _, _, ho.cons [] fun s => (map_nil_append _).symm⟩
    | zero =>
      cases hc : isGap c with
      | true =>
        rw [tokensFrom_gap hc] at h
        obtain ⟨before, quote, body, ho⟩ := ih h
        refine ⟨_, _, _, ho.cons [] fun s => ?_⟩
        rw [List.cons_append, tokensFrom_gap hc, map_nil_append]
      | false =>
        simp only [tokensFrom] at h
        by_cases hu : (scan c cs).1 = .fault .unterminated
        · obtain ⟨hq, hb⟩ := scan_eq_unterminated hu
          rw [hu] at h
          cases h
          exact ⟨[], c, cs, rfl, rfl, hq, hb, [], fun s => (map_nil_append _).symm⟩
        · have happend := tokensFrom_append_cons hc hu offset
          cases hs : (scan c cs).1 with
          | gap =>
            rw [hs] at h
            obtain ⟨before, quote, body, ho⟩ := ih h
            refine ⟨_, _, _, ho.cons [] fun s => ?_⟩
            rw [happend, hs, map_nil_append]
          | token t =>
            rw [hs] at h
            cases hr : tokensFrom (offset + c.utf8Size) (scan c cs).2 cs with
            | ok rest => simp [hr] at h
            | error f =>
              simp only [hr, Except.error.injEq] at h
              subst h
              obtain ⟨before, quote, body, ho⟩ := ih hr
              let read : Placed Token := ⟨t, offset, offset + width (c :: cs.take (scan c cs).2)⟩
              refine ⟨_, _, _, ho.cons [read] fun s => ?_⟩
              rw [happend, hs]
              rfl
          | fault f =>
            rw [hs] at h
            cases h
            exact (hu hs).elim

end RemoteEval.Script
