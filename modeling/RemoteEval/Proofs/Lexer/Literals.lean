import Mathlib.Data.String.Basic
import RemoteEval.Proofs.Lexer.Partition
import RemoteEval.Proofs.Text.Digits

/-!
# Literals that are read as they were written

A text is written between quotes character by character (`Written`) : a backslash and the quote
itself behind a backslash, some other characters behind one or as they are, the rest as they are.
Two mechanisms read it. A pattern finds the closing quote and knows nothing of what a backslash
makes of a character, `unescape` decodes what stands before that quote and knows nothing of
quotes. They agree on every run of backslashes and quotes : both succeed on just what is written
for a text (`written_iff`).

A text is a single token when one pattern matches all of it (`tokenize_eq_singleton_iff`). So what
stands between two quotes is the literal of a text just when it is written for that text, and the
digits of a number are its literal, whatever underscores are put behind the first of them
(`literals_read_back`).
-/

namespace RemoteEval.Script

open scoped Computability

variable {c d quote : Char} {word body cs : List Char} {closed opened : Pattern} {t : Token}
  {i : Nat}

/-! ## How literals are written -/

/-- What can be written for a character between two quotes. -/
inductive CharWritten (quote : Char) : Char → List Char → Prop where
  /-- The character itself, unless it would be taken for an escape or for the closing quote. -/
  | plain {c : Char} (hquote : c ≠ quote) (hbackslash : c ≠ '\\') : CharWritten quote c [c]
  /-- A backslash. -/
  | backslash : CharWritten quote '\\' ['\\', '\\']
  /-- A double quote, between quotes of either kind. -/
  | doubleQuote : CharWritten quote '"' ['\\', '"']
  /-- A single quote, between quotes of either kind. -/
  | singleQuote : CharWritten quote '\'' ['\\', '\'']
  /-- A newline. -/
  | newline : CharWritten quote '\n' ['\\', 'n']
  /-- A tab. -/
  | tab : CharWritten quote '\t' ['\\', 't']
  /-- A carriage return. -/
  | carriageReturn : CharWritten quote '\r' ['\\', 'r']
  /-- The character with the number zero. -/
  | nul : CharWritten quote '\x00' ['\\', '0']

/-- What can be written for characters between two quotes : something for each of them. -/
inductive Written (quote : Char) : List Char → List Char → Prop where
  /-- Nothing for no character. -/
  | nil : Written quote [] []
  /-- What is written for a character, and behind it what is written for the others. -/
  | cons {c : Char} {piece cs body : List Char} (hc : CharWritten quote c piece)
    (hcs : Written quote cs body) : Written quote (c :: cs) (piece ++ body)

/-- Characters between two quotes. -/
def enclosed (quote : Char) (body : List Char) : List Char :=
  quote :: (body ++ [quote])

/-- `word` is `digits` with underscores put in behind the first of them. -/
structure Grouped (digits word : List Char) : Prop where
  /-- No underscore stands in front. -/
  head : word.head? = digits.head?
  /-- Apart from underscores there are the digits. -/
  digits : word.filter (· ≠ '_') = digits

/-! ## Escapes -/

theorem escape?_eq_some_iff : escape? d = some c ↔ CharWritten quote c ['\\', d] := by
  constructor
  · intro h
    unfold escape? at h
    split at h <;> cases h <;> constructor
  · intro h
    cases h <;> rfl

/-- What is written for a character is the character, or an escape that makes it. -/
theorem charWritten_iff {piece : List Char} : CharWritten quote c piece ↔
    (c ≠ quote ∧ c ≠ '\\' ∧ piece = [c]) ∨ ∃ d, escape? d = some c ∧ piece = ['\\', d] := by
  constructor
  · intro h
    cases h with
    | plain hquote hbackslash => exact .inl ⟨hquote, hbackslash, rfl⟩
    | _ => exact .inr ⟨_, rfl, rfl⟩
  · rintro (⟨hquote, hbackslash, rfl⟩ | ⟨d, hd, rfl⟩)
    · exact .plain hquote hbackslash
    · exact escape?_eq_some_iff.1 hd

theorem ne_newline_of_escape? (h : escape? d = some c) : d ≠ '\n' := by
  rintro rfl
  cases h

theorem unescape_escape (h : escape? d = some c) (cs : List Char) :
    unescape ('\\' :: d :: cs) = (unescape cs).map (c :: ·) := by
  simp [unescape, h]

/-- What is written can stand between quotes, and is decoded as what it is written for. -/
theorem Written.read (h : Written quote cs body) :
    body ∈ (quotedPieces quote)∗ ∧ unescape body = .ok cs := by
  induction h with
  | nil => exact ⟨nil_mem_quoted, rfl⟩
  | cons hc _ ih =>
    obtain ⟨hquoted, hread⟩ := ih
    obtain ⟨hquote, hbackslash, rfl⟩ | ⟨d, hd, rfl⟩ := charWritten_iff.1 hc
    · refine ⟨plain_mem_quoted hquote hbackslash hquoted, ?_⟩
      rw [List.singleton_append, unescape_plain hbackslash, hread]
      rfl
    · refine ⟨escape_mem_quoted (ne_newline_of_escape? hd) hquoted, ?_⟩
      rw [List.cons_append, List.singleton_append, unescape_escape hd, hread]
      rfl

/-- What can stand between quotes and is decoded is written for what it is decoded as. -/
theorem written_of_unescape (h : body ∈ (quotedPieces quote)∗) (hread : unescape body = .ok cs) :
    Written quote cs body := by
  refine quoted_induction (motive := fun body => ∀ cs, unescape body = .ok cs →
    Written quote cs body) ?_ ?_ ?_ h cs hread
  · rintro _ ⟨⟩
    exact .nil
  · intro c body hquote hbackslash ih cs hread
    rw [unescape_plain hbackslash] at hread
    obtain ⟨tail, htail, rfl⟩ := map_eq_ok_iff.1 hread
    exact .cons (.plain hquote hbackslash) (ih tail htail)
  · intro d body _ ih cs hread
    cases hd : escape? d with
    | none => simp [unescape, hd] at hread
    | some c =>
      rw [unescape_escape hd] at hread
      obtain ⟨tail, htail, rfl⟩ := map_eq_ok_iff.1 hread
      exact .cons (escape?_eq_some_iff.1 hd) (ih tail htail)

/-- The search for the closing quote passes over what is written for characters, and over nothing
else that decodes as them. -/
theorem written_iff :
    Written quote cs body ↔ body ∈ (quotedPieces quote)∗ ∧ unescape body = .ok cs :=
  ⟨Written.read, fun h => written_of_unescape h.1 h.2⟩

theorem exists_charWritten (hquote : quote = '"' ∨ quote = '\'') (c : Char) :
    ∃ piece, CharWritten quote c piece := by
  by_cases hc : c = quote
  · subst hc
    obtain rfl | rfl := hquote
    · exact ⟨_, .doubleQuote⟩
    · exact ⟨_, .singleQuote⟩
  · by_cases hbackslash : c = '\\'
    · subst hbackslash
      exact ⟨_, .backslash⟩
    · exact ⟨_, .plain hc hbackslash⟩

/-- All characters can be written between quotes. -/
theorem exists_written (hquote : quote = '"' ∨ quote = '\'') (cs : List Char) :
    ∃ body, Written quote cs body := by
  induction cs with
  | nil => exact ⟨[], .nil⟩
  | cons c cs ih =>
    obtain ⟨body, hbody⟩ := ih
    obtain ⟨piece, hpiece⟩ := exists_charWritten hquote c
    exact ⟨piece ++ body, .cons hpiece hbody⟩

/-! ## Texts of one token -/

/-- A text is a single token just when a pattern matches all of it and reads a token from it. -/
theorem tokenize_eq_singleton_iff : tokenize word = .ok [⟨t, 0, width word⟩] ↔
    ∃ p, Longest p word [] ∧ p.read word = .token t := by
  constructor
  · intro h
    obtain ⟨p, before, cut, after, hword, hstart, hstop, hlongest, hread, -⟩ :=
      (tokenize_eq_ok_iff.1 h).isCutFrom _ (List.mem_singleton.2 rfl)
    have hwidth : width word = width before + width cut + width after := by
      rw [hword, width_append, width_append]
    dsimp only at hstart hstop hread
    obtain rfl := eq_nil_of_width hstart.symm
    obtain rfl : after = [] := eq_nil_of_width (by omega)
    obtain rfl : word = cut := by simpa using hword
    exact ⟨p, hlongest, hread⟩
  · rintro ⟨p, hlongest, hread⟩
    exact tokenize_word hlongest hread

/-! ## Texts and characters -/

/-- What stands between two quotes is a single token just when the search for the closing quote
passes over it, and the pattern with two quotes reads that token. -/
theorem tokenize_enclosed_iff (h : Longest.QuotedBy quote closed opened)
    (hopened : ∀ word, opened.read word = .fault .unterminated) :
    tokenize (enclosed quote body) = .ok [⟨t, 0, width (enclosed quote body)⟩] ↔
      body ∈ (quotedPieces quote)∗ ∧ closed.read (enclosed quote body) = .token t := by
  rw [tokenize_eq_singleton_iff]
  constructor
  · rintro ⟨p, hlongest, hread⟩
    obtain rfl | rfl := h.only p (family_eq_of_mem hlongest.fits)
    · have hfits := hlongest.fits
      rw [h.closed_language, mem_closedLiterals] at hfits
      obtain ⟨body', hquoted, heq⟩ := hfits
      obtain rfl := List.append_cancel_right (List.cons.inj heq).2
      exact ⟨hquoted, hread⟩
    · rw [hopened] at hread
      cases hread
  · rintro ⟨hquoted, hread⟩
    obtain ⟨rest, -, hlongest⟩ :=
      Longest.closedLiteral h (literalBody?_quoted h.ne_backslash hquoted [])
    have halone : Longest closed (enclosed quote body) [] := Longest.of_append hlongest
    exact ⟨closed, halone, hread⟩

theorem read_str (quote : Char) (body : List Char) :
    Pattern.str.read (enclosed quote body) = textLiteral body := by
  simp [Pattern.read, enclosed]

theorem read_char (quote : Char) (body : List Char) :
    Pattern.char.read (enclosed quote body) = characterLiteral body := by
  simp [Pattern.read, enclosed]

theorem textLiteral_eq_str_iff {s : String} :
    textLiteral body = .token (.str s) ↔ unescape body = .ok s.toList := by
  unfold textLiteral
  cases unescape body with
  | ok cs => simp [String.ofList_eq]
  | error f => simp

theorem characterLiteral_eq_char_iff :
    characterLiteral body = .token (.char c) ↔ unescape body = .ok [c] := by
  unfold characterLiteral
  split <;> simp_all

/-- Between double quotes stands the literal of a text just when it is written for the text. -/
theorem tokenize_str_iff (s : String) (body : List Char) :
    tokenize (enclosed '"' body) = .ok [⟨.str s, 0, width (enclosed '"' body)⟩] ↔
      Written '"' s.toList body := by
  rw [tokenize_enclosed_iff Longest.quotedBy_str fun _ => rfl, read_str, textLiteral_eq_str_iff,
    written_iff]

/-- Between single quotes stands the literal of a character just when it is written for it. -/
theorem tokenize_char_iff (c : Char) (body : List Char) :
    tokenize (enclosed '\'' body) = .ok [⟨.char c, 0, width (enclosed '\'' body)⟩] ↔
      Written '\'' [c] body := by
  rw [tokenize_enclosed_iff Longest.quotedBy_char fun _ => rfl, read_char,
    characterLiteral_eq_char_iff, written_iff]

/-! ## Whole numbers -/

theorem Grouped.isDigit (h : Grouped (Nat.toDigits 10 i) word) (hc : c ∈ word) (hne : c ≠ '_') :
    c.isDigit = true := by
  have hmem : c ∈ word.filter (· ≠ '_') := List.mem_filter.2 ⟨hc, by simpa using hne⟩
  rw [h.digits] at hmem
  exact Text.isDigit_of_mem_toDigits hmem

/-- Underscores behind the first digit leave the word of a number one. -/
theorem Grouped.mem_digitWords (h : Grouped (Nat.toDigits 10 i) word) : word ∈ digitWords := by
  obtain ⟨c, rest, hdigits, hc⟩ := Text.exists_toDigits_cons i
  have hhead := h.head
  rw [hdigits] at hhead
  obtain ⟨cs, rfl⟩ := List.head?_eq_some_iff.1 hhead
  refine cons_mem_run.2 ⟨hc, fun d hd => ?_⟩
  by_cases hne : d = '_'
  · simp [isDigitPart, hne]
  · exact isDigitPart_of_isDigit (h.isDigit (.tail _ hd) hne)

/-- Underscores mean nothing : the digits spell the number. -/
theorem Grouped.digitsValue (h : Grouped (Nat.toDigits 10 i) word) : digitsValue word = i := by
  have hsame : word.filter Char.isDigit = word.filter (· ≠ '_') := by
    refine List.filter_congr fun c hc => ?_
    by_cases hne : c = '_'
    · simp [hne]
    · simp [hne, h.isDigit hc hne]
  rw [Script.digitsValue, hsame, h.digits]
  exact Nat.ofDigitChars_ten_toDigits

/-- Digits and underscores with nothing behind them are the longest word of a number. -/
theorem longest_digitWords (h : word ∈ digitWords) : Longest .whole word [] := by
  obtain ⟨c, cs, rfl, hc, hcs⟩ := mem_oneOf_mul.1 h
  have hrun : ∀ d ∈ cs, isDigitPart d = true := mem_oneOf_star.1 hcs
  have hrest : cs.dropWhile isDigitPart = [] := List.dropWhile_eq_nil_iff.2 hrun
  have hpoint (d : Char) (more : List Char) (hmore : cs.dropWhile isDigitPart = '.' :: d :: more) :
      d.isDigit = false := by
    rw [hrest] at hmore
    cases hmore
  have hwhole := Longest.whole hc hpoint
  rwa [List.takeWhile_eq_self_iff.2 hrun, hrest] at hwhole

theorem tokenize_digits_of_lt (h : word ∈ digitWords) (hlimit : digitsValue word < intLimit) :
    tokenize word = .ok [⟨.int (Int64.ofNat (digitsValue word)), 0, width word⟩] :=
  tokenize_word (longest_digitWords h) (if_pos hlimit)

theorem tokenize_digits_of_le (h : word ∈ digitWords) (hlimit : intLimit ≤ digitsValue word) :
    tokenize word = .error ⟨.invalidNumber (String.ofList word), 0, width word⟩ := by
  have hread : Pattern.whole.read word = .fault (.invalidNumber (String.ofList word)) :=
    if_neg hlimit.not_gt
  have halone := tokensFrom_longest (longest_digitWords h) 0
  rw [hread, List.append_nil, Nat.zero_add] at halone
  exact halone

/-! ## Literals -/

/-- Literals are read as they were written. Every text can be written between double quotes, and
what stands between them is the one token of the text just when it is written for the text. So it
is with a character between single quotes. The digits of a number, with any underscores behind the
first of them, are the one token of the number, and from `2 ^ 63` on they are no valid number. -/
theorem literals_read_back :
    (∀ s : String, (∃ body, Written '"' s.toList body) ∧ ∀ body,
      tokenize (enclosed '"' body) = .ok [⟨.str s, 0, width (enclosed '"' body)⟩] ↔
        Written '"' s.toList body) ∧
      (∀ c : Char, (∃ body, Written '\'' [c] body) ∧ ∀ body,
        tokenize (enclosed '\'' body) = .ok [⟨.char c, 0, width (enclosed '\'' body)⟩] ↔
          Written '\'' [c] body) ∧
      ∀ (i : Nat) (word : List Char), Grouped (Nat.toDigits 10 i) word →
        (i < 2 ^ 63 →
          ∃ n : Int64, n.toInt = i ∧ tokenize word = .ok [⟨.int n, 0, width word⟩]) ∧
        (2 ^ 63 ≤ i →
          tokenize word = .error ⟨.invalidNumber (String.ofList word), 0, width word⟩) := by
  refine ⟨fun s => ⟨exists_written (.inl rfl) s.toList, tokenize_str_iff s⟩,
    fun c => ⟨exists_written (.inr rfl) [c], tokenize_char_iff c⟩,
    fun i word hword => ⟨fun hi => ?_, fun hi => ?_⟩⟩
  · refine ⟨Int64.ofNat i, Int64.toInt_ofNat_of_lt hi, ?_⟩
    have hlimit : digitsValue word < intLimit := by rwa [hword.digitsValue]
    have htoken := tokenize_digits_of_lt hword.mem_digitWords hlimit
    rwa [hword.digitsValue] at htoken
  · refine tokenize_digits_of_le hword.mem_digitWords ?_
    rwa [hword.digitsValue]

/-- A backslash, a quote, a newline as it is and one behind a backslash ; the largest number with
its digits in groups of three, and the number after it. -/
theorem literals_read_back_samples :
    tokenize "\"\\\\\\\"\n\\n\"".toList = .ok [⟨.str "\\\"\n\n", 0, 9⟩] ∧
      tokenize "'\\''".toList = .ok [⟨.char '\'', 0, 4⟩] ∧
      Grouped (Nat.toDigits 10 9223372036854775807) "9_223_372_036_854_775_807".toList ∧
      (∃ n : Int64, n.toInt = 9223372036854775807 ∧
        tokenize "9_223_372_036_854_775_807".toList = .ok [⟨.int n, 0, 25⟩]) ∧
      Grouped (Nat.toDigits 10 9223372036854775808) "9_223_372_036_854_775_808_".toList ∧
      tokenize "9_223_372_036_854_775_808_".toList =
        .error ⟨.invalidNumber "9_223_372_036_854_775_808_", 0, 26⟩ := by
  have hstr : Written '"' "\\\"\n\n".toList
      (['\\', '\\'] ++ (['\\', '"'] ++ (['\n'] ++ (['\\', 'n'] ++ [])))) :=
    .cons .backslash (.cons .doubleQuote (.cons (.plain (by decide) (by decide))
      (.cons .newline .nil)))
  have hchar : Written '\'' ['\''] (['\\', '\''] ++ []) := .cons .singleQuote .nil
  have hlargest : Grouped (Nat.toDigits 10 9223372036854775807)
      "9_223_372_036_854_775_807".toList := by
    have hdigits : Nat.toDigits 10 9223372036854775807 = "9223372036854775807".toList := by cbv
    rw [hdigits]
    exact ⟨by decide, by decide⟩
  have hafter : Grouped (Nat.toDigits 10 9223372036854775808)
      "9_223_372_036_854_775_808_".toList := by
    have hdigits : Nat.toDigits 10 9223372036854775808 = "9223372036854775808".toList := by cbv
    rw [hdigits]
    exact ⟨by decide, by decide⟩
  have hlt : 9223372036854775807 < 2 ^ 63 := by decide
  have hle : 2 ^ 63 ≤ 9223372036854775808 := by decide
  have htext := ((literals_read_back.1 "\\\"\n\n").2 _).2 hstr
  have hcharacter := ((literals_read_back.2.1 '\'').2 _).2 hchar
  obtain ⟨n, hn, hnumber⟩ := (literals_read_back.2.2 _ _ hlargest).1 hlt
  have hfault := (literals_read_back.2.2 _ _ hafter).2 hle
  have hwidth : width "9_223_372_036_854_775_807".toList = 25 := by decide
  have hwidth' : width "9_223_372_036_854_775_808_".toList = 26 := by decide
  rw [hwidth] at hnumber
  rw [hwidth', String.ofList_toList] at hfault
  exact ⟨htext, hcharacter, hlargest, ⟨n, hn, hnumber⟩, hafter, hfault⟩

end RemoteEval.Script
