import RemoteEval.Proofs.Lexer.Newline
import RemoteEval.Script.Pattern

/-!
# What the patterns match

The words of the patterns, character by character : a run of a class (`cons_mem_run`), a number
with a fraction (`mem_fraction`), a literal with its closing quote and without it
(`mem_closedLiterals`, `mem_openLiterals`). What can stand between quotes is what the search for
the closing quote passes over (`literalBody?_quoted`), and an open literal has no more characters
than that search takes (`length_le_openBody`).

The first character of a word says which patterns can match it (`family_eq_of_mem`), and no
pattern matches nothing (`nil_notMem`).
-/

namespace RemoteEval.Script

open scoped Computability

variable {c d quote : Char} {word more cs body tail : List Char} {p q : Char → Bool} {s : String}
  {l : Language Char}

/-! ## Words of a class -/

theorem mem_oneOf_star : word ∈ (oneOf p)∗ ↔ ∀ c ∈ word, p c = true := by
  constructor
  · rintro ⟨pieces, rfl, hpieces⟩ c hc
    obtain ⟨piece, hpiece, hmem⟩ := List.mem_flatten.1 hc
    obtain ⟨d, hd, rfl⟩ := hpieces piece hpiece
    rwa [List.mem_singleton.1 hmem]
  · intro h
    refine ⟨word.map ([·]), ?_, ?_⟩
    · rw [← List.flatMap_def, List.flatMap_singleton']
    · intro piece hpiece
      obtain ⟨c, hc, rfl⟩ := List.mem_map.1 hpiece
      exact ⟨c, h c hc, rfl⟩

theorem mem_oneOf_mul :
    word ∈ oneOf p * l ↔ ∃ c cs, word = c :: cs ∧ p c = true ∧ cs ∈ l := by
  rw [Language.mem_mul]
  constructor
  · rintro ⟨_, ⟨c, hc, rfl⟩, cs, hcs, rfl⟩
    exact ⟨c, cs, rfl, hc, hcs⟩
  · rintro ⟨c, cs, rfl, hc, hcs⟩
    exact ⟨[c], ⟨c, hc, rfl⟩, cs, hcs, rfl⟩

theorem mem_spelled_mul : word ∈ spelled s * l ↔ ∃ cs ∈ l, word = s.toList ++ cs := by
  rw [Language.mem_mul]
  constructor
  · rintro ⟨_, rfl, cs, hcs, rfl⟩
    exact ⟨cs, hcs, rfl⟩
  · rintro ⟨cs, hcs, rfl⟩
    exact ⟨_, rfl, cs, hcs, rfl⟩

theorem cons_mem_run : c :: cs ∈ oneOf p * (oneOf q)∗ ↔ p c = true ∧ ∀ d ∈ cs, q d = true := by
  rw [mem_oneOf_mul]
  simp [mem_oneOf_star]

/-- A run of characters of a class ends where none of the class stands. -/
theorem head?_of_isPrefix_dropWhile (h : more <+: cs.dropWhile p) :
    ∀ d ∈ more.head?, p d = false := by
  intro d hd
  obtain ⟨tail, htail⟩ := h
  refine Text.head?_dropWhile cs d ?_
  rw [← htail, List.head?_append, Option.mem_def.1 hd]
  rfl

theorem eq_nil_of_run (h : more <+: cs.dropWhile p) (hmore : ∀ c ∈ more, p c = true) :
    more = [] := by
  cases more with
  | nil => rfl
  | cons d ds =>
    have hd := head?_of_isPrefix_dropWhile h d rfl
    rw [hmore d (.head _)] at hd
    cases hd

/-! ## Comments -/

theorem cons_mem_comment : '/' :: '/' :: cs ∈ Pattern.comment.language ↔ '\n' ∉ cs := by
  constructor
  · intro h
    obtain ⟨body, hbody, heq⟩ := mem_spelled_mul.1 h
    obtain ⟨-, htail⟩ := List.cons.inj heq
    obtain ⟨-, rfl⟩ := List.cons.inj htail
    intro hn
    simpa using mem_oneOf_star.1 hbody '\n' hn
  · intro h
    refine mem_spelled_mul.2 ⟨cs, mem_oneOf_star.2 fun d hd => ?_, rfl⟩
    rw [decide_eq_true_eq]
    rintro rfl
    exact h hd

theorem eq_slash_of_comment (h : c :: cs ∈ Pattern.comment.language) :
    c = '/' ∧ cs.head? = some '/' := by
  obtain ⟨body, -, heq⟩ := mem_spelled_mul.1 h
  obtain ⟨rfl, rfl⟩ := List.cons.inj heq
  exact ⟨rfl, rfl⟩

/-! ## Numbers -/

theorem isDigitPart_of_isDigit (h : c.isDigit = true) : isDigitPart c = true := by
  simp [isDigitPart, h]

theorem isDigitPart_of_mem (h : word ∈ digitWords) : ∀ c ∈ word, isDigitPart c = true := by
  obtain ⟨c, cs, rfl, hc, hcs⟩ := mem_oneOf_mul.1 h
  exact List.forall_mem_cons.2 ⟨isDigitPart_of_isDigit hc, mem_oneOf_star.1 hcs⟩

theorem mem_fraction : word ∈ digitWords * spelled "." * digitWords ↔
    ∃ us ∈ digitWords, ∃ vs ∈ digitWords, word = us ++ '.' :: vs := by
  rw [mul_assoc, Language.mem_mul]
  constructor
  · rintro ⟨us, hus, _, hpoint, rfl⟩
    obtain ⟨vs, hvs, rfl⟩ := mem_spelled_mul.1 hpoint
    exact ⟨us, hus, vs, hvs, rfl⟩
  · rintro ⟨us, hus, vs, hvs, rfl⟩
    exact ⟨us, hus, _, mem_spelled_mul.2 ⟨vs, hvs, rfl⟩, rfl⟩

theorem point_ends (cs : List Char) : ∀ d ∈ ('.' :: cs).head?, isDigitPart d = false := by
  rintro _ ⟨⟩
  rfl

/-- Digits up to a point are those before the first character that is none. -/
theorem eq_of_point {us vs run : List Char} (hus : us ∈ digitWords)
    (hrun : ∀ d ∈ run, isDigitPart d = true) (hmore : ∀ d ∈ more.head?, isDigitPart d = false)
    (h : run ++ more = us ++ '.' :: vs) : us = run ∧ more = '.' :: vs := by
  have hus' : (us ++ '.' :: vs).takeWhile isDigitPart = us :=
    Text.takeWhile_append_of_head? (isDigitPart_of_mem hus) (point_ends vs)
  rw [← h, Text.takeWhile_append_of_head? hrun hmore] at hus'
  subst hus'
  exact ⟨rfl, List.append_cancel_left h⟩

theorem isDigitPart_of_mem_run (hc : c.isDigit = true) (cs : List Char) :
    ∀ d ∈ c :: cs.takeWhile isDigitPart, isDigitPart d = true :=
  List.forall_mem_cons.2 ⟨isDigitPart_of_isDigit hc, fun _ hd => List.mem_takeWhile_imp hd⟩

theorem notMem_fraction (h : ∀ d ∈ word, isDigitPart d = true) :
    word ∉ Pattern.fraction.language := by
  intro hmem
  obtain ⟨us, -, vs, -, rfl⟩ := mem_fraction.1 hmem
  have hpoint : isDigitPart '.' = true := h '.' (by simp)
  revert hpoint
  decide

/-! ## Words and marks -/

theorem isNamePart_of_mem_reserved {q : Pattern} (hq : q.isReserved = true)
    (h : word ∈ q.language) : ∀ d ∈ word, isNamePart d = true := by
  rw [← List.all_eq_true]
  cases q <;> cases hq
  case bool b => cases b <;> cases h <;> rfl
  case null =>
    cases h
    rfl

theorem spelling_length_le (m : Mark) : m.spelling.toList.length ≤ 2 := by
  cases m <;> decide

theorem spelling_eq_pair {m : Mark} : [c, d] = m.spelling.toList ↔ Mark.pair? c d = some m := by
  constructor
  · intro h
    cases m <;> cases h <;> rfl
  · intro h
    unfold Mark.pair? at h
    split at h <;> cases h <;> rfl

theorem spelling_eq_single {m : Mark} : [c] = m.spelling.toList ↔ Mark.single? c = some m := by
  constructor
  · intro h
    cases m <;> cases h <;> rfl
  · intro h
    unfold Mark.single? at h
    split at h <;> cases h <;> rfl

/-- A mark has no more than two characters. -/
theorem eq_nil_of_pair {m : Mark} (h : c :: d :: more ∈ (Pattern.mark m).language) :
    more = [] := by
  have hlength := spelling_length_le m
  rw [← (h : _ = m.spelling.toList)] at hlength
  simpa using hlength

/-! ## Literals -/

theorem mem_closedLiterals : word ∈ closedLiterals quote ↔
    ∃ body ∈ (quotedPieces quote)∗, word = quote :: (body ++ [quote]) := by
  rw [closedLiterals, mul_assoc, mem_oneOf_mul]
  constructor
  · rintro ⟨c, _, rfl, hc, hcs⟩
    obtain ⟨body, hbody, _, ⟨d, hd, rfl⟩, rfl⟩ := Language.mem_mul.1 hcs
    rw [decide_eq_true_eq] at hc hd
    subst hc hd
    exact ⟨body, hbody, rfl⟩
  · rintro ⟨body, hbody, rfl⟩
    exact ⟨_, _, rfl, by simp, Language.mem_mul.2 ⟨body, hbody, _, ⟨quote, by simp, rfl⟩, rfl⟩⟩

theorem mem_openLiterals : word ∈ openLiterals quote ↔
    ∃ body ∈ (quotedPieces quote)∗, ∃ tail, (tail = [] ∨ tail = ['\\']) ∧
      word = quote :: (body ++ tail) := by
  rw [openLiterals, mul_assoc, mem_oneOf_mul]
  constructor
  · rintro ⟨c, _, rfl, hc, hcs⟩
    obtain ⟨body, hbody, tail, htail, rfl⟩ := Language.mem_mul.1 hcs
    rw [decide_eq_true_eq] at hc
    subst hc
    exact ⟨body, hbody, tail, htail, rfl⟩
  · rintro ⟨body, hbody, tail, htail, rfl⟩
    exact ⟨_, _, rfl, by simp, Language.mem_mul.2 ⟨body, hbody, tail, htail, rfl⟩⟩

theorem nil_mem_quoted : [] ∈ (quotedPieces quote)∗ := Language.nil_mem_kstar _

theorem cons_mem_quoted {piece : List Char} (hpiece : piece ∈ quotedPieces quote)
    (h : body ∈ (quotedPieces quote)∗) : piece ++ body ∈ (quotedPieces quote)∗ := by
  obtain ⟨pieces, rfl, hpieces⟩ := h
  exact ⟨piece :: pieces, rfl, List.forall_mem_cons.2 ⟨hpiece, hpieces⟩⟩

theorem plain_mem_quoted (hq : c ≠ quote) (hb : c ≠ '\\') (h : body ∈ (quotedPieces quote)∗) :
    c :: body ∈ (quotedPieces quote)∗ := by
  have hpiece : [c] ∈ quotedPieces quote := .inl ⟨c, by simp [hq, hb], rfl⟩
  exact cons_mem_quoted hpiece h

theorem escape_mem_quoted (hc : c ≠ '\n') (h : body ∈ (quotedPieces quote)∗) :
    '\\' :: c :: body ∈ (quotedPieces quote)∗ := by
  have hpiece : ['\\', c] ∈ quotedPieces quote :=
    .inr (mem_spelled_mul.2 ⟨[c], ⟨c, by simp [hc], rfl⟩, rfl⟩)
  exact cons_mem_quoted hpiece h

/-- What holds of nothing, of a plain character before what it holds of, and of a backslash and a
character before what it holds of, holds of everything that can stand between quotes. -/
theorem quoted_induction {motive : List Char → Prop} (nil : motive [])
    (plain : ∀ c body, c ≠ quote → c ≠ '\\' → motive body → motive (c :: body))
    (escape : ∀ c body, c ≠ '\n' → motive body → motive ('\\' :: c :: body))
    (h : body ∈ (quotedPieces quote)∗) : motive body := by
  obtain ⟨pieces, rfl, hpieces⟩ := h
  induction pieces with
  | nil => exact nil
  | cons piece pieces ih =>
    obtain ⟨hpiece, hrest⟩ := List.forall_mem_cons.1 hpieces
    obtain ⟨c, hc, rfl⟩ | hescape := hpiece
    · rw [Bool.and_eq_true, decide_eq_true_eq, decide_eq_true_eq] at hc
      exact plain c _ hc.1 hc.2 (ih hrest)
    · obtain ⟨_, ⟨c, hc, rfl⟩, rfl⟩ := mem_spelled_mul.1 hescape
      exact escape c _ (of_decide_eq_true hc) (ih hrest)

theorem quoted_of_literalBody? (h : literalBody? quote cs = some body) :
    body ∈ (quotedPieces quote)∗ ∧ ∃ rest, cs = body ++ quote :: rest := by
  fun_induction literalBody? quote cs generalizing body with
  | case1 => cases h
  | case2 rest =>
    cases h
    exact ⟨nil_mem_quoted, rest, rfl⟩
  | case3 => cases h
  | case4 => cases h
  | case5 d more hd _ ih =>
    obtain ⟨tail, ht, rfl⟩ := Option.map_eq_some_iff.1 h
    obtain ⟨htail, rest, rfl⟩ := ih ht
    exact ⟨escape_mem_quoted hd htail, rest, rfl⟩
  | case6 c rest hq hb ih =>
    obtain ⟨tail, ht, rfl⟩ := Option.map_eq_some_iff.1 h
    obtain ⟨htail, rest, rfl⟩ := ih ht
    exact ⟨plain_mem_quoted hq hb htail, rest, rfl⟩

/-- What can stand between quotes is read up to the quote behind it. -/
theorem literalBody?_quoted (hquote : quote ≠ '\\') (h : body ∈ (quotedPieces quote)∗)
    (rest : List Char) : literalBody? quote (body ++ quote :: rest) = some body := by
  refine quoted_induction (motive := fun body => literalBody? quote (body ++ quote :: rest) =
    some body) (literalBody?_quote rest) ?_ ?_ h
  · intro c body hq hb ih
    rw [List.cons_append, literalBody?_plain hq hb, ih]
    rfl
  · intro c body hc ih
    simp [literalBody?, hquote.symm, hc, ih]

theorem literalBody?_unclosed (hquote : quote ≠ '\\') (h : body ∈ (quotedPieces quote)∗)
    (htail : tail = [] ∨ tail = ['\\']) : literalBody? quote (body ++ tail) = none := by
  refine quoted_induction (motive := fun body => literalBody? quote (body ++ tail) = none)
    ?_ ?_ ?_ h
  · obtain rfl | rfl := htail
    · rfl
    · simp [literalBody?, hquote.symm]
  · intro c body hq hb ih
    rw [List.cons_append, literalBody?_plain hq hb, ih]
    rfl
  · intro c body hc ih
    simp [literalBody?, hquote.symm, hc, ih]

theorem openBody_mem (quote : Char) (cs : List Char) :
    ∃ body ∈ (quotedPieces quote)∗, ∃ tail, (tail = [] ∨ tail = ['\\']) ∧
      openBody quote cs = body ++ tail := by
  fun_induction openBody quote cs with
  | case1 => exact ⟨[], nil_mem_quoted, [], .inl rfl, rfl⟩
  | case2 => exact ⟨[], nil_mem_quoted, [], .inl rfl, rfl⟩
  | case3 => exact ⟨[], nil_mem_quoted, _, .inr rfl, rfl⟩
  | case4 => exact ⟨[], nil_mem_quoted, _, .inr rfl, rfl⟩
  | case5 d more hd _ ih =>
    obtain ⟨body, hbody, tail, htail, h⟩ := ih
    exact ⟨_, escape_mem_quoted hd hbody, tail, htail, by rw [h]; rfl⟩
  | case6 c rest hq hb ih =>
    obtain ⟨body, hbody, tail, htail, h⟩ := ih
    exact ⟨_, plain_mem_quoted hq hb hbody, tail, htail, by rw [h]; rfl⟩

/-- No more of an open literal is matched than is taken. -/
theorem length_le_openBody (hquote : quote ≠ '\\') (h : body ∈ (quotedPieces quote)∗)
    (htail : tail = [] ∨ tail = ['\\']) (hcs : body ++ tail <+: cs) :
    (body ++ tail).length ≤ (openBody quote cs).length := by
  revert cs
  refine quoted_induction (motive := fun body => ∀ {cs}, body ++ tail <+: cs →
    (body ++ tail).length ≤ (openBody quote cs).length) ?_ ?_ ?_ h
  · intro cs hcs
    obtain rfl | rfl := htail
    · exact Nat.zero_le _
    · obtain ⟨more, rfl⟩ := hcs
      cases more with
      | nil => simp [openBody, hquote.symm]
      | cons d more =>
        by_cases hd : d = '\n' <;> simp [openBody, hquote.symm, hd]
  · rintro c body hq hb ih _ ⟨more, rfl⟩
    rw [List.cons_append, List.cons_append, openBody_plain hq hb, List.length_cons,
      List.length_cons]
    exact Nat.succ_le_succ (ih (List.prefix_append ..))
  · rintro c body hc ih _ ⟨more, rfl⟩
    have hbody := ih (List.prefix_append (body ++ tail) more)
    simpa [openBody, hquote.symm, hc] using hbody

/-! ## First characters -/

/-- Kinds of words, told apart by their first characters. -/
inductive Family where
  | blank | number | word | str | char | mark
deriving DecidableEq

/-- The kind of the words that start with a character. -/
def Family.ofChar (c : Char) : Family :=
  if isGap c then .blank
  else if c.isDigit then .number
  else if isNameStart c then .word
  else if c = '"' then .str
  else if c = '\'' then .char
  else .mark

/-- The kind of the words of a pattern. -/
def Pattern.family : Pattern → Family
  | blank => .blank
  | whole | fraction => .number
  | bool _ | null | name => .word
  | str | openStr => .str
  | char | openChar => .char
  | comment | mark _ => .mark

theorem ofChar_of_isGap (h : isGap c = true) : Family.ofChar c = .blank := if_pos h

theorem isGap_eq_false {p : Char → Bool} (h : p c = true) (hp : ∀ c, isGap c = true → p c = false) :
    isGap c = false := by
  cases hc : isGap c with
  | false => rfl
  | true =>
    rw [hp c hc] at h
    cases h

theorem isDigit_of_isGap (c : Char) (h : isGap c = true) : c.isDigit = false := by
  simp only [isGap, Bool.or_eq_true, decide_eq_true_eq] at h
  obtain (((rfl | rfl) | rfl) | rfl) | rfl := h <;> decide

theorem isNameStart_of_isGap (c : Char) (h : isGap c = true) : isNameStart c = false := by
  simp only [isGap, Bool.or_eq_true, decide_eq_true_eq] at h
  obtain (((rfl | rfl) | rfl) | rfl) | rfl := h <;> decide

theorem isDigit_of_isNameStart (h : isNameStart c = true) : c.isDigit = false := by
  obtain halpha | rfl : c.isAlpha = true ∨ c = '_' := by simpa [isNameStart] using h
  · have hletter : (decide (c.val ≥ 'A'.val ∧ c.val ≤ 'Z'.val) ||
        (decide (c.val ≥ 'a'.val) && decide (c.val ≤ 'z'.val))) = true := halpha
    change (decide (c.val ≥ '0'.val) && decide (c.val ≤ '9'.val)) = false
    grind
  · rfl

theorem ofChar_of_isDigit (h : c.isDigit = true) : Family.ofChar c = .number := by
  simp [Family.ofChar, isGap_eq_false h isDigit_of_isGap, h]

theorem ofChar_of_isNameStart (h : isNameStart c = true) : Family.ofChar c = .word := by
  simp [Family.ofChar, isGap_eq_false h isNameStart_of_isGap, isDigit_of_isNameStart h, h]

theorem nil_notMem (q : Pattern) : [] ∉ q.language := by
  intro h
  cases q with
  | blank | name | whole => obtain ⟨c, cs, hc, -⟩ := mem_oneOf_mul.1 h; cases hc
  | fraction =>
    obtain ⟨us, -, vs, -, hus⟩ := mem_fraction.1 h
    simp at hus
  | comment =>
    obtain ⟨cs, -, hcs⟩ := mem_spelled_mul.1 h
    cases hcs
  | bool b => cases b <;> cases h
  | null => cases h
  | mark m => cases m <;> cases h
  | str | char =>
    obtain ⟨body, -, hbody⟩ := mem_closedLiterals.1 h
    cases hbody
  | openStr | openChar =>
    obtain ⟨body, -, tail, -, hbody⟩ := mem_openLiterals.1 h
    cases hbody

/-- A pattern only matches words that start as words of its kind do. -/
theorem family_eq_of_mem {q : Pattern} (h : c :: cs ∈ q.language) :
    q.family = Family.ofChar c := by
  cases q with
  | blank => exact (ofChar_of_isGap (cons_mem_run.1 h).1).symm
  | name => exact (ofChar_of_isNameStart (cons_mem_run.1 h).1).symm
  | whole => exact (ofChar_of_isDigit (cons_mem_run.1 h).1).symm
  | fraction =>
    obtain ⟨us, hus, vs, -, heq⟩ := mem_fraction.1 h
    obtain ⟨d, ds, rfl, hd, -⟩ := mem_oneOf_mul.1 hus
    obtain ⟨rfl, -⟩ := List.cons.inj heq
    exact (ofChar_of_isDigit hd).symm
  | comment =>
    obtain ⟨_, -, heq⟩ := mem_spelled_mul.1 h
    obtain ⟨rfl, -⟩ := List.cons.inj heq
    rfl
  | bool b => cases b <;> cases h <;> rfl
  | null =>
    cases h
    rfl
  | mark m => cases m <;> cases h <;> rfl
  | str | char =>
    obtain ⟨body, -, heq⟩ := mem_closedLiterals.1 h
    obtain ⟨rfl, -⟩ := List.cons.inj heq
    rfl
  | openStr | openChar =>
    obtain ⟨body, -, tail, -, heq⟩ := mem_openLiterals.1 h
    obtain ⟨rfl, -⟩ := List.cons.inj heq
    rfl

theorem ofChar_of_mark {m : Mark} (h : c :: cs = m.spelling.toList) :
    Family.ofChar c = .mark :=
  (family_eq_of_mem (q := .mark m) h).symm

end RemoteEval.Script
