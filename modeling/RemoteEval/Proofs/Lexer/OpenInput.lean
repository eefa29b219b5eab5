import Mathlib
import RemoteEval.Proofs.Lexer.Newline
import RemoteEval.Script.Evaluator

/-!
# Leaving an open input

An input that needs more lines gets them behind a newline. A character with which no token starts
ends every such input, behind the quote that closes its last literal if one is open
(`needsMore_leave_iff_not_jammed`). A backslash in that literal takes the next character with it,
but not a newline : where it stands before the newline, the literal is never closed, and the input
needs more lines whatever they are (`Jammed`, `needsMore_of_jammed`).
-/

namespace RemoteEval.Script

variable {quote : Char} {body : List Char}

/-- Before a closing quote comes a backslash with a newline or nothing behind it. -/
def jams (quote : Char) : List Char → Bool
  | [] => false
  | c :: rest =>
    if c = quote then false
    else if c = '\\' then
      match rest with
      | [] => true
      | d :: more => d = '\n' || jams quote more
    else jams quote rest

/-- A literal that jams is not closed behind the newline. -/
theorem literalBody?_of_jams (h : jams quote body = true) (s : List Char) :
    literalBody? quote (body ++ '\n' :: s) = none := by
  fun_induction jams quote body with
  | case1 => cases h
  | case2 => cases h
  | case3 hq => simp [literalBody?, hq]
  | case4 d more hq ih =>
    simp only [Bool.or_eq_true, decide_eq_true_eq] at h
    by_cases hd : d = '\n'
    · simp [literalBody?, hq, hd]
    · have hmore := ih (h.resolve_left hd)
      simp [literalBody?, hq, hd, hmore]
  | case5 c rest hq hb ih =>
    rw [List.cons_append, literalBody?_plain hq hb, ih h]
    rfl

/-- An open literal that does not jam is closed by its quote behind the newline. -/
theorem literalBody?_of_not_jams (hquote : quote = '"' ∨ quote = '\'')
    (h : literalBody? quote body = none) (hj : jams quote body = false) (s : List Char) :
    literalBody? quote (body ++ '\n' :: quote :: s) = some (body ++ ['\n']) := by
  have hn : '\n' ≠ quote := by
    obtain rfl | rfl := hquote <;> decide
  fun_induction jams quote body with
  | case1 => simp [literalBody?_plain hn]
  | case2 => simp at h
  | case3 => cases hj
  | case4 d more hq ih =>
    simp only [Bool.or_eq_false_iff, decide_eq_false_iff_not] at hj
    have hmore : literalBody? quote more = none := by
      simpa [literalBody?, hq, hj.1] using h
    simp [literalBody?, hq, hj.1, ih hmore hj.2]
  | case5 c rest hq hb ih =>
    rw [literalBody?_plain hq hb, Option.map_eq_none_iff] at h
    rw [List.cons_append, literalBody?_plain hq hb, ih h hj]
    rfl

/-! ## Characters behind a literal -/

variable {offset start stop : Nat} {t before : List Char}

theorem tokensFrom_unexpected (offset : Nat) :
    tokensFrom offset 0 ['#'] = .error ⟨.unexpected '#', offset, offset + 1⟩ := rfl

theorem scan_closed {cs : List Char} (hquote : quote = '"' ∨ quote = '\'')
    (h : literalBody? quote cs = some body) : (scan quote cs).2 = body.length + 1 := by
  obtain rfl | rfl := hquote
  · change (scanLiteral '"' textLiteral cs).2 = _
    rw [scanLiteral, h]
  · change (scanLiteral '\'' characterLiteral cs).2 = _
    rw [scanLiteral, h]

/-- A closed literal with a character behind it with which no token starts is a fault, but not an
open literal. -/
theorem tokensFrom_closed (hquote : quote = '"' ∨ quote = '\'')
    (h : literalBody? quote (body ++ [quote, '#']) = some body) (offset : Nat) :
    ∃ f, tokensFrom offset 0 (quote :: (body ++ [quote, '#'])) = .error f ∧
      f.item ≠ .unterminated := by
  have hu : (scan quote (body ++ [quote, '#'])).1 ≠ .fault .unterminated := by
    intro hu
    rw [(scan_eq_unterminated hu).2] at h
    cases h
  have hrest : tokensFrom (offset + quote.utf8Size) (body.length + 1) (body ++ [quote, '#']) =
      tokensFrom (offset + quote.utf8Size + width (body ++ [quote])) 0 ['#'] := by
    rw [← tokensFrom_skip]
    simp
  rw [tokensFrom_unexpected] at hrest
  simp only [tokensFrom, scan_closed hquote h, hrest]
  cases hs : (scan quote (body ++ [quote, '#'])).1 with
  | gap => exact ⟨_, rfl, by simp⟩
  | token t => exact ⟨_, rfl, by simp⟩
  | fault f =>
    refine ⟨_, rfl, ?_⟩
    rintro rfl
    exact hu hs

/-- A literal whose closing quote does not come is open. -/
theorem tokensFrom_unclosed (hquote : quote = '"' ∨ quote = '\'') {cs : List Char}
    (h : literalBody? quote cs = none) (offset : Nat) :
    ∃ stop, tokensFrom offset 0 (quote :: cs) = .error ⟨.unterminated, offset, stop⟩ := by
  have hs : scan quote cs = (.fault .unterminated, (openBody quote cs).length) := by
    obtain rfl | rfl := hquote
    · change scanLiteral '"' textLiteral cs = _
      rw [scanLiteral, h]
    · change scanLiteral '\'' characterLiteral cs = _
      rw [scanLiteral, h]
  simp only [tokensFrom, hs]
  exact ⟨_, rfl⟩

/-! ## Inputs that need more -/

/-- More input is needed. -/
def NeedsMore (input : String) : Prop :=
  ∃ text, continuation? input = .ok (some text)

theorem needsMore_iff (input : String) :
    NeedsMore input ↔ parse input.toList = .error .incomplete := by
  unfold NeedsMore continuation?
  split <;> simp_all

theorem not_needsMore_of_fault {input : String} {f : Placed LexicalFault}
    (h : tokenize input.toList = .error f) (hf : f.item ≠ .unterminated) :
    ¬NeedsMore input := by
  obtain ⟨item, start, stop⟩ := f
  rw [needsMore_iff, parse, h]
  cases item <;> simp_all [Refusal.ofLexical]

theorem needsMore_of_unterminated {input : String}
    (h : tokenize input.toList = .error ⟨.unterminated, start, stop⟩) : NeedsMore input := by
  simp [needsMore_iff, parse, h, Refusal.ofLexical]

/-- The input ends inside a literal in which a backslash stands before a newline, or at the end,
where the newline comes next. -/
def Jammed (t : List Char) : Prop :=
  ∃ before quote body stop, t = before ++ quote :: body ∧
    tokenize t = .error ⟨.unterminated, width before, stop⟩ ∧ jams quote body = true

theorem toList_append_newline (t s : String) :
    (t ++ "\n" ++ s).toList = t.toList ++ '\n' :: s.toList := by
  simp

theorem eq_of_width_eq {us vs us' vs' : List Char} (h : us ++ vs = us' ++ vs')
    (hw : width us = width us') : us = us' ∧ vs = vs' := by
  obtain ⟨more, rfl, rfl⟩ | ⟨more, rfl, rfl⟩ := List.append_eq_append_iff.1 h
  · rw [width_append] at hw
    obtain rfl : more = [] := eq_nil_of_width (by omega)
    exact ⟨(List.append_nil us).symm, rfl⟩
  · rw [width_append] at hw
    obtain rfl : more = [] := eq_nil_of_width (by omega)
    exact ⟨List.append_nil us', rfl⟩

/-- A jammed input stays open whatever lines follow. -/
theorem needsMore_of_jammed {t : String} (h : Jammed t.toList) (s : String) :
    NeedsMore (t ++ "\n" ++ s) := by
  obtain ⟨before, quote, body, stop, ht, hbefore, hj⟩ := h
  obtain ⟨before', quote', body', ho⟩ := opensAt_of_unterminated hbefore
  obtain ⟨-, hsame⟩ := eq_of_width_eq (ht.symm.trans ho.text)
    (by simpa using ho.place)
  obtain ⟨rfl, rfl⟩ := List.cons.inj hsame
  obtain ⟨tokens, hresumes⟩ := ho.resumes
  obtain ⟨stop', hopen⟩ := tokensFrom_unclosed ho.isQuote
    (literalBody?_of_jams hj s.toList) (width before)
  have herror : tokenize (t ++ "\n" ++ s).toList =
      .error ⟨.unterminated, width before, stop'⟩ := by
    rw [toList_append_newline, tokenize, hresumes, List.cons_append, hopen]
    rfl
  exact needsMore_of_unterminated herror

/-- An input that is not jammed is left by a character with which no token starts. -/
theorem exists_leaving_line {t : String} (h : NeedsMore t) (hj : ¬Jammed t.toList) :
    ∃ s : String, '\n' ∉ s.toList ∧ ¬NeedsMore (t ++ "\n" ++ s) := by
  cases ht : tokenize t.toList with
  | ok tokens =>
    have hboth := tokensFrom_append_newline (Nat.zero_le _) ht "#".toList
    rw [← toList_append_newline, show "#".toList = ['#'] from rfl, tokensFrom_unexpected] at hboth
    exact ⟨"#", by decide, not_needsMore_of_fault hboth (by simp)⟩
  | error f =>
    have hf : f.item = .unterminated := by
      by_cases hf : f.item = .unterminated
      · exact hf
      · exact (not_needsMore_of_fault ht hf h).elim
    obtain ⟨item, start, stop⟩ := f
    subst hf
    obtain ⟨before, quote, body, ho⟩ := opensAt_of_unterminated ht
    have hstart : start = width before := by simpa using ho.place
    have hnot : jams quote body = false := by
      rw [← Bool.not_eq_true]
      intro hjams
      exact hj ⟨before, quote, body, stop, ho.text, hstart ▸ ht, hjams⟩
    obtain ⟨tokens, hresumes⟩ := ho.resumes
    have hclosed := literalBody?_of_not_jams ho.isQuote ho.unclosed hnot ['#']
    rw [List.append_cons] at hclosed
    obtain ⟨f, hfault, hf⟩ := tokensFrom_closed ho.isQuote hclosed start
    refine ⟨String.ofList [quote, '#'], ?_, not_needsMore_of_fault (f := f) ?_ hf⟩
    · obtain rfl | rfl := ho.isQuote <;> simp
    · rw [toList_append_newline, String.toList_ofList, tokenize, hresumes, List.cons_append,
        List.append_cons, hfault]
      rfl

/-- An input that needs more is left by some line, accepted or rejected, unless it ends inside a
literal with a backslash before a newline : then it needs more whatever lines follow. -/
theorem needsMore_leave_iff_not_jammed {t : String} (h : NeedsMore t) :
    ((∃ s : String, '\n' ∉ s.toList ∧ ¬NeedsMore (t ++ "\n" ++ s)) ↔ ¬Jammed t.toList) ∧
      (Jammed t.toList → ∀ s, NeedsMore (t ++ "\n" ++ s)) := by
  refine ⟨⟨?_, exists_leaving_line h⟩, needsMore_of_jammed⟩
  rintro ⟨s, -, hs⟩ hj
  exact hs (needsMore_of_jammed hj s)

/-- A call that is open, and in it a literal that is open. -/
theorem needsMore_leave_open_call :
    NeedsMore "print('a" ∧
      ∃ s : String, '\n' ∉ s.toList ∧ ¬NeedsMore ("print('a" ++ "\n" ++ s) := by
  have ht : tokenize "print('a".toList = .error ⟨.unterminated, 6, 8⟩ := by cbv
  have hmore : NeedsMore "print('a" := needsMore_of_unterminated ht
  refine ⟨hmore, (needsMore_leave_iff_not_jammed hmore).1.2 ?_⟩
  rintro ⟨before, quote, body, stop, hsplit, herror, hj⟩
  rw [ht] at herror
  obtain ⟨hwidth, -⟩ : 6 = width before ∧ 8 = stop := by simpa using herror
  obtain ⟨-, hbody⟩ : "print(".toList = before ∧ "'a".toList = quote :: body :=
    eq_of_width_eq hsplit hwidth
  obtain ⟨rfl, rfl⟩ := List.cons.inj hbody
  revert hj
  decide

/-- A lone backslash behind a quote is an input that no line leaves. -/
theorem not_all_needsMore_left :
    ¬∀ t, NeedsMore t → ∃ s : String, '\n' ∉ s.toList ∧ ¬NeedsMore (t ++ "\n" ++ s) := by
  intro h
  have ht : tokenize "\"\\".toList = .error ⟨.unterminated, 0, 2⟩ := by cbv
  obtain ⟨s, -, hs⟩ := h "\"\\" (needsMore_of_unterminated ht)
  exact hs (needsMore_of_jammed ⟨[], '"', ['\\'], 2, rfl, ht, rfl⟩ s)

end RemoteEval.Script
