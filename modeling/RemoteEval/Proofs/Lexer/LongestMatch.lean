import Mathlib.Data.String.Basic
import RemoteEval.Proofs.Lexer.Patterns

/-!
# The scanner takes the longest word

`scan` looks at the first characters of a text and takes a run of them. Here that run is shown to
be the longest word that any pattern matches, and what `scan` says of it to be what is read from
that word (`scanned_scan`).

Each branch of the scanner has its lemma : only the patterns of the family of the first character
have to be looked at (`Longest.of_family`), and of those none matches more.
-/

namespace RemoteEval.Script

open scoped Computability

variable {c d : Char} {word more rest cs body : List Char} {p q : Pattern} {quote : Char}

namespace Longest

/-- Only patterns of one kind have to be looked at. -/
theorem of_family {k : Family} (hk : Family.ofChar c = k) (fits : c :: word ∈ p.language)
    (longest : ∀ q : Pattern, q.family = k → ∀ more, more <+: rest →
      c :: (word ++ more) ∈ q.language → more = [])
    (preferred : ∀ q : Pattern, q.family = k → c :: word ∈ q.language →
      q = p ∨ p.isReserved = true ∧ q = .name) :
    Longest p (c :: word) rest where
  fits := fits
  longest q more hmore hq := longest q ((family_eq_of_mem hq).trans hk) more hmore hq
  preferred q hq := preferred q ((family_eq_of_mem hq).trans hk) hq

/-! ## Blanks and comments -/

theorem blank (hc : isGap c = true) (cs : List Char) :
    Longest .blank (c :: cs.takeWhile isGap) (cs.dropWhile isGap) := by
  have hfamily := ofChar_of_isGap hc
  refine .of_family hfamily (cons_mem_run.2 ⟨hc, fun d hd => List.mem_takeWhile_imp hd⟩) ?_ ?_
  · intro q hq more hmore hmem
    cases q <;> cases hq
    exact eq_nil_of_run hmore (List.forall_mem_append.1 (cons_mem_run.1 hmem).2).2
  · intro q hq _
    cases q <;> cases hq
    exact .inl rfl

theorem comment (cs : List Char) :
    Longest .comment ('/' :: '/' :: cs.takeWhile (· ≠ '\n')) (cs.dropWhile (· ≠ '\n')) := by
  have hrun : '\n' ∉ cs.takeWhile (· ≠ '\n') := by
    intro h
    simpa using List.mem_takeWhile_imp h
  have hslash (m : Mark) (word : List Char) : '/' :: '/' :: word ∉ (Pattern.mark m).language := by
    intro h
    cases m <;> cases h
  refine .of_family rfl (cons_mem_comment.2 hrun) ?_ ?_
  · intro q hq more hmore hmem
    cases q <;> cases hq
    · rw [List.cons_append, cons_mem_comment] at hmem
      refine eq_nil_of_run hmore fun d hd => ?_
      rw [decide_eq_true_eq]
      rintro rfl
      exact hmem (List.mem_append_right _ hd)
    · exact (hslash _ _ hmem).elim
  · intro q hq hmem
    cases q <;> cases hq
    · exact .inl rfl
    · exact (hslash _ _ hmem).elim

/-! ## Numbers -/

/-- Digits behind which no point stands with a digit behind it. -/
theorem whole (hc : c.isDigit = true)
    (hpoint : ∀ d more, cs.dropWhile isDigitPart = '.' :: d :: more → d.isDigit = false) :
    Longest .whole (c :: cs.takeWhile isDigitPart) (cs.dropWhile isDigitPart) := by
  have hfamily := ofChar_of_isDigit hc
  have hrun := isDigitPart_of_mem_run hc cs
  refine .of_family hfamily (cons_mem_run.2 ⟨hc, fun d hd => hrun d (.tail _ hd)⟩) ?_ ?_
  · intro q hq more hmore hmem
    cases q <;> cases hq
    · exact eq_nil_of_run hmore (List.forall_mem_append.1 (cons_mem_run.1 hmem).2).2
    · obtain ⟨us, hus, vs, hvs, heq⟩ := mem_fraction.1 hmem
      obtain ⟨-, rfl⟩ := eq_of_point hus hrun (head?_of_isPrefix_dropWhile hmore) heq
      obtain ⟨d, ds, rfl, hd, -⟩ := mem_oneOf_mul.1 hvs
      obtain ⟨after, hafter⟩ := hmore
      rw [hpoint d (ds ++ after) hafter.symm] at hd
      cases hd
  · intro q hq hmem
    cases q <;> cases hq
    · exact .inl rfl
    · exact (notMem_fraction hrun hmem).elim

/-- Digits, a point, and digits again. -/
theorem fraction (hc : c.isDigit = true) (hd : d.isDigit = true) (run : List Char)
    (hrun : ∀ d ∈ run, isDigitPart d = true) (more : List Char) :
    Longest .fraction (c :: (run ++ '.' :: d :: more.takeWhile isDigitPart))
      (more.dropWhile isDigitPart) := by
  have hfamily := ofChar_of_isDigit hc
  have hwhole : c :: run ∈ digitWords := cons_mem_run.2 ⟨hc, hrun⟩
  have hnot {after : List Char} : c :: (run ++ '.' :: after) ∉ Pattern.whole.language := by
    intro h
    have hpoint : isDigitPart '.' = true := isDigitPart_of_mem h '.' (by simp)
    revert hpoint
    decide
  refine .of_family hfamily (mem_fraction.2 ⟨c :: run, hwhole, d :: more.takeWhile isDigitPart,
    cons_mem_run.2 ⟨hd, fun _ he => List.mem_takeWhile_imp he⟩, rfl⟩) ?_ ?_
  · intro q hq after hafter hmem
    rw [List.append_assoc, List.cons_append] at hmem
    cases q <;> cases hq
    · exact (hnot hmem).elim
    · obtain ⟨us, hus, vs, hvs, heq⟩ := mem_fraction.1 hmem
      have hdigits : ∀ e ∈ c :: run, isDigitPart e = true := isDigitPart_of_mem hwhole
      obtain ⟨-, hvs'⟩ := eq_of_point hus hdigits (point_ends _) heq
      obtain ⟨-, rfl⟩ := List.cons.inj hvs'
      rw [List.cons_append] at hvs
      exact eq_nil_of_run hafter (List.forall_mem_append.1 (cons_mem_run.1 hvs).2).2
  · intro q hq hmem
    cases q <;> cases hq
    · exact (hnot hmem).elim
    · exact .inl rfl

/-! ## Words -/

/-- The characters of a name, which may be a reserved word. -/
theorem word_of_preferred (hc : isNameStart c = true) (cs : List Char)
    (fits : c :: cs.takeWhile isNamePart ∈ p.language)
    (preferred : ∀ q : Pattern, c :: cs.takeWhile isNamePart ∈ q.language →
      q = p ∨ p.isReserved = true ∧ q = .name) :
    Longest p (c :: cs.takeWhile isNamePart) (cs.dropWhile isNamePart) := by
  have hfamily := ofChar_of_isNameStart hc
  refine .of_family hfamily fits ?_ fun q _ => preferred q
  intro q hq more hmore hmem
  refine eq_nil_of_run hmore fun d hd => ?_
  cases q <;> cases hq
  case name => exact (cons_mem_run.1 hmem).2 d (List.mem_append_right _ hd)
  all_goals
    exact isNamePart_of_mem_reserved rfl hmem d (.tail _ (List.mem_append_right _ hd))

/-- A word is reserved, or it is a name. -/
theorem name_or_reserved (hc : isNameStart c = true) (cs : List Char) :
    ∃ p, Longest p (c :: cs.takeWhile isNamePart) (cs.dropWhile isNamePart) ∧
      p.read (c :: cs.takeWhile isNamePart) =
        .token (wordToken (c :: cs.takeWhile isNamePart)) := by
  have hname : c :: cs.takeWhile isNamePart ∈ Pattern.name.language :=
    cons_mem_run.2 ⟨hc, fun d hd => List.mem_takeWhile_imp hd⟩
  have hlongest (p : Pattern) (hp : p.isReserved = true ∨ p = .name)
      (fits : c :: cs.takeWhile isNamePart ∈ p.language)
      (only : ∀ q : Pattern, q.isReserved = true → c :: cs.takeWhile isNamePart ∈ q.language →
        q = p) :
      Longest p (c :: cs.takeWhile isNamePart) (cs.dropWhile isNamePart) := by
    refine word_of_preferred hc cs fits fun q hq => ?_
    have hkind := family_eq_of_mem hq
    rw [ofChar_of_isNameStart hc] at hkind
    cases q <;> cases hkind
    case name => exact hp.elim (fun h => .inr ⟨h, rfl⟩) fun h => .inl h.symm
    all_goals exact .inl (only _ rfl hq)
  unfold wordToken
  generalize c :: cs.takeWhile isNamePart = run at *
  split
  · next h =>
    obtain rfl := String.ofList_eq.1 h
    refine ⟨.bool true, hlongest _ (.inl rfl) rfl fun q hq hmem => ?_, rfl⟩
    cases q <;> cases hq
    case bool b =>
      cases b
      · cases hmem
      · rfl
    case null => cases hmem
  · next h =>
    obtain rfl := String.ofList_eq.1 h
    refine ⟨.bool false, hlongest _ (.inl rfl) rfl fun q hq hmem => ?_, rfl⟩
    cases q <;> cases hq
    case bool b =>
      cases b
      · rfl
      · cases hmem
    case null => cases hmem
  · next h =>
    obtain rfl := String.ofList_eq.1 h
    refine ⟨.null, hlongest _ (.inl rfl) rfl fun q hq hmem => ?_, rfl⟩
    cases q <;> cases hq
    case bool b => cases b <;> cases hmem
    case null => rfl
  · next htrue hfalse hnull =>
    refine ⟨.name, hlongest _ (.inr rfl) hname fun q hq hmem => ?_, rfl⟩
    cases q <;> cases hq
    case bool b =>
      cases b <;> cases hmem
      · exact (hfalse rfl).elim
      · exact (htrue rfl).elim
    case null =>
      cases hmem
      exact (hnull rfl).elim

/-! ## Literals -/

/-- The patterns of the literals between quotes of a kind. -/
structure QuotedBy (quote : Char) (closed opened : Pattern) : Prop where
  closed_language : closed.language = closedLiterals quote
  opened_language : opened.language = openLiterals quote
  only : ∀ q : Pattern, q.family = .ofChar quote → q = closed ∨ q = opened
  ne_backslash : quote ≠ '\\'

theorem quotedBy_str : QuotedBy '"' .str .openStr where
  closed_language := rfl
  opened_language := rfl
  only q hq := by cases q <;> cases hq <;> simp
  ne_backslash := by decide

theorem quotedBy_char : QuotedBy '\'' .char .openChar where
  closed_language := rfl
  opened_language := rfl
  only q hq := by cases q <;> cases hq <;> simp
  ne_backslash := by decide

variable {closed opened : Pattern}

/-- A literal up to its closing quote. -/
theorem closedLiteral (h : QuotedBy quote closed opened)
    (hbody : literalBody? quote cs = some body) :
    ∃ rest, cs = body ++ [quote] ++ rest ∧ Longest closed (quote :: (body ++ [quote])) rest := by
  obtain ⟨hquoted, rest, rfl⟩ := quoted_of_literalBody? hbody
  have hread (more : List Char) := literalBody?_quoted h.ne_backslash hquoted more
  have hopen {more : List Char} : quote :: (body ++ [quote] ++ more) ∉ opened.language := by
    rw [h.opened_language, mem_openLiterals]
    rintro ⟨body', hbody', tail, htail, heq⟩
    have hnone := literalBody?_unclosed h.ne_backslash hbody' htail
    rw [← (List.cons.inj heq).2, List.append_assoc, List.singleton_append, hread] at hnone
    cases hnone
  refine ⟨rest, by simp, .of_family rfl ?_ ?_ ?_⟩
  · rw [h.closed_language, mem_closedLiterals]
    exact ⟨body, hquoted, rfl⟩
  · intro q hq more _ hmem
    obtain rfl | rfl := h.only q hq
    · rw [h.closed_language, mem_closedLiterals] at hmem
      obtain ⟨body', hbody', heq⟩ := hmem
      have hsame := literalBody?_quoted h.ne_backslash hbody' []
      rw [← (List.cons.inj heq).2, List.append_assoc, List.singleton_append, hread] at hsame
      obtain rfl := Option.some.inj hsame
      simpa using heq
    · exact (hopen hmem).elim
  · intro q hq hmem
    obtain rfl | rfl := h.only q hq
    · exact .inl rfl
    · rw [← List.append_nil (body ++ [quote])] at hmem
      exact (hopen hmem).elim

/-- A literal whose closing quote does not come. -/
theorem openLiteral (h : QuotedBy quote closed opened) (hbody : literalBody? quote cs = none) :
    Longest opened (quote :: openBody quote cs) (cs.drop (openBody quote cs).length) := by
  have hcs := List.prefix_iff_eq_append.1 (openBody_isPrefix quote cs)
  have hclosed {more : List Char} (hmore : more <+: cs.drop (openBody quote cs).length) :
      quote :: (openBody quote cs ++ more) ∉ closed.language := by
    rw [h.closed_language, mem_closedLiterals]
    rintro ⟨body, hquoted, heq⟩
    obtain ⟨after, hafter⟩ := hmore
    rw [← hcs, ← hafter, ← List.append_assoc, (List.cons.inj heq).2, List.append_assoc,
      List.singleton_append, literalBody?_quoted h.ne_backslash hquoted] at hbody
    cases hbody
  refine .of_family rfl ?_ ?_ ?_
  · rw [h.opened_language, mem_openLiterals]
    obtain ⟨body, hquoted, tail, htail, heq⟩ := openBody_mem quote cs
    exact ⟨body, hquoted, tail, htail, by rw [heq]⟩
  · intro q hq more hmore hmem
    obtain rfl | rfl := h.only q hq
    · exact (hclosed hmore hmem).elim
    · rw [h.opened_language, mem_openLiterals] at hmem
      obtain ⟨body, hquoted, tail, htail, heq⟩ := hmem
      obtain ⟨-, heq⟩ := List.cons.inj heq
      have hprefix := (List.prefix_append_right_inj (openBody quote cs)).2 hmore
      rw [hcs, heq] at hprefix
      have hlength := length_le_openBody h.ne_backslash hquoted htail hprefix
      rw [← heq, List.length_append] at hlength
      exact List.length_eq_zero_iff.1 (by omega)
  · intro q hq hmem
    obtain rfl | rfl := h.only q hq
    · rw [← List.append_nil (openBody quote cs)] at hmem
      exact (hclosed List.nil_prefix hmem).elim
    · exact .inl rfl

/-! ## Marks -/

theorem pair {m : Mark} (h : Mark.pair? c d = some m) (rest : List Char) :
    Longest (.mark m) [c, d] rest := by
  have hspelling := spelling_eq_pair.2 h
  have hcomment {more : List Char} : c :: d :: more ∉ Pattern.comment.language := by
    intro hmem
    obtain ⟨rfl, hd⟩ := eq_slash_of_comment hmem
    cases m <;> cases hspelling
  have hfamily := ofChar_of_mark hspelling
  refine .of_family hfamily hspelling ?_ ?_
  · intro q hq more _ hmem
    cases q <;> cases hq
    · exact (hcomment hmem).elim
    · exact eq_nil_of_pair hmem
  · intro q hq hmem
    cases q <;> cases hq
    · exact (hcomment hmem).elim
    · rw [spelling_eq_pair.1 hmem] at h
      exact .inl (congrArg Pattern.mark (Option.some.inj h))

/-- A mark of one character, which does not start one of two, nor a comment. -/
theorem single {m : Mark} (h : Mark.single? c = some m)
    (hpair : ∀ d ∈ rest.head?, Mark.pair? c d = none)
    (hcomment : ¬(c = '/' ∧ rest.head? = some '/')) : Longest (.mark m) [c] rest := by
  have hspelling := spelling_eq_single.2 h
  have hfamily := ofChar_of_mark hspelling
  refine .of_family hfamily hspelling ?_ ?_
  · rintro q hq more ⟨after, rfl⟩ hmem
    cases more with
    | nil => rfl
    | cons d more =>
      cases q <;> cases hq
      · obtain ⟨rfl, hhead⟩ := eq_slash_of_comment hmem
        exact (hcomment ⟨rfl, hhead⟩).elim
      · obtain rfl := eq_nil_of_pair hmem
        have hnone := hpair d rfl
        rw [spelling_eq_pair.1 hmem] at hnone
        cases hnone
  · intro q hq hmem
    cases q <;> cases hq
    · obtain ⟨-, hnil⟩ := eq_slash_of_comment hmem
      cases hnil
    · rw [spelling_eq_single.1 hmem] at h
      exact .inl (congrArg Pattern.mark (Option.some.inj h))

end Longest

/-- A character of no kind that starts no mark and no comment starts nothing. -/
theorem unmatched (hfamily : Family.ofChar c = .mark) (hsingle : Mark.single? c = none)
    (hpair : ∀ d ∈ rest.head?, Mark.pair? c d = none)
    (hcomment : ¬(c = '/' ∧ rest.head? = some '/')) : Unmatched (c :: rest) := by
  rintro q word ⟨after, hafter⟩ hmem
  cases word with
  | nil => exact nil_notMem q hmem
  | cons d word =>
    obtain ⟨rfl, rfl⟩ := List.cons.inj hafter
    have hq := family_eq_of_mem hmem
    rw [hfamily] at hq
    cases q <;> cases hq
    · obtain ⟨rfl, hhead⟩ := eq_slash_of_comment hmem
      cases word with
      | nil => cases hhead
      | cons e word => exact hcomment ⟨rfl, hhead⟩
    · next m =>
      match word with
      | [] =>
        rw [spelling_eq_single.1 hmem] at hsingle
        cases hsingle
      | e :: word =>
        obtain rfl := eq_nil_of_pair hmem
        have hnone := hpair e rfl
        rw [spelling_eq_pair.1 hmem] at hnone
        cases hnone

/-! ## The scanner -/

/-- What the scanner says of a character and those behind it : what is read from the longest word,
and how many characters of it follow the first. -/
inductive Scanned (c : Char) : List Char → Lexeme × Nat → Prop where
  /-- A pattern matches something. -/
  | longest {p : Pattern} {word rest : List Char} (h : Longest p (c :: word) rest) :
    Scanned c (word ++ rest) (p.read (c :: word), word.length)
  /-- No pattern does. -/
  | unmatched {rest : List Char} (h : Unmatched (c :: rest)) :
    Scanned c rest (.fault (.unexpected c), 0)

/-- The longest word is a run of characters of a class. -/
theorem Scanned.of_run {f : Char → Bool} (h : Longest p (c :: cs.takeWhile f) (cs.dropWhile f)) :
    Scanned c cs (p.read (c :: cs.takeWhile f), (cs.takeWhile f).length) := by
  have hscanned := Scanned.longest h
  rwa [List.takeWhile_append_dropWhile] at hscanned

theorem scanned_comment (hcomment : c = '/' ∧ cs.head? = some '/') :
    Scanned c cs (.gap, (cs.takeWhile (· ≠ '\n')).length) := by
  obtain ⟨rfl, hhead⟩ := hcomment
  obtain ⟨tail, rfl⟩ := List.head?_eq_some_iff.1 hhead
  exact .of_run (p := .comment) (Longest.comment tail)

theorem drop_length_takeWhile (f : Char → Bool) (cs : List Char) :
    cs.drop (cs.takeWhile f).length = cs.dropWhile f := by
  have hsame := List.prefix_iff_eq_append.1 (List.takeWhile_prefix (l := cs) f)
  exact List.append_cancel_left (hsame.trans List.takeWhile_append_dropWhile.symm)

/-- What is read from digits, a point and digits are the digits before and behind the point. -/
theorem read_fraction {us : List Char} (hus : ∀ d ∈ us, isDigitPart d = true) (vs : List Char) :
    Pattern.fraction.read (us ++ '.' :: vs) = .token (fractionNumber us vs) := by
  have hpoint : ∀ d ∈ us, decide (d ≠ '.') = true := by
    intro d hd
    rw [decide_eq_true_eq]
    rintro rfl
    cases hus '.' hd
  have hends : ∀ d ∈ ('.' :: vs).head?, decide (d ≠ '.') = false := by
    rintro _ ⟨⟩
    rfl
  rw [Pattern.read, Text.takeWhile_append_of_head? hpoint hends,
    Text.dropWhile_append_of_head? hpoint hends, List.tail_cons]

theorem scanned_number (hc : c.isDigit = true) (cs : List Char) :
    Scanned c cs (scanNumber c cs) := by
  have hsplit : cs.takeWhile isDigitPart ++ cs.dropWhile isDigitPart = cs :=
    List.takeWhile_append_dropWhile
  have hrun := isDigitPart_of_mem_run hc cs
  unfold scanNumber
  dsimp only
  rw [drop_length_takeWhile]
  split
  · next d more heq =>
    split
    · next hd =>
      have hlongest := Longest.fraction hc hd (cs.takeWhile isDigitPart)
        (fun e he => hrun e (.tail _ he)) more
      have hscanned := Scanned.longest hlongest
      rw [← List.cons_append, read_fraction hrun, List.append_assoc, List.cons_append,
        List.cons_append, List.takeWhile_append_dropWhile, ← heq, hsplit] at hscanned
      simpa [Nat.add_assoc, Nat.add_comm] using hscanned
    · next hd =>
      refine .of_run (Longest.whole hc fun e after h => ?_)
      rw [heq] at h
      obtain ⟨rfl, rfl⟩ : d = e ∧ more = after := by simpa using h
      exact Bool.eq_false_iff.2 hd
  · next hnone => exact .of_run (Longest.whole hc fun d more h => (hnone d more h).elim)

theorem scanned_literal {closed opened : Pattern} {lexeme : List Char → Lexeme}
    (h : Longest.QuotedBy quote closed opened)
    (hclosed : ∀ body, closed.read (quote :: (body ++ [quote])) = lexeme body)
    (hopened : ∀ word, opened.read word = .fault .unterminated) (cs : List Char) :
    Scanned quote cs (scanLiteral quote lexeme cs) := by
  unfold scanLiteral
  split
  · next body hbody =>
    obtain ⟨rest, rfl, hlongest⟩ := Longest.closedLiteral h hbody
    have hscanned := Scanned.longest hlongest
    rwa [hclosed, List.length_append] at hscanned
  · next hbody =>
    have hscanned := Scanned.longest (Longest.openLiteral h hbody)
    rwa [hopened, List.prefix_iff_eq_append.1 (openBody_isPrefix quote cs)] at hscanned

theorem scanned_mark (hfamily : Family.ofChar c = .mark)
    (hcomment : ¬(c = '/' ∧ cs.head? = some '/')) : Scanned c cs (scanMark c cs) := by
  unfold scanMark
  split
  · next m hm =>
    obtain ⟨d, hd, hpair⟩ := Option.bind_eq_some_iff.1 hm
    obtain ⟨rest, rfl⟩ := List.head?_eq_some_iff.1 hd
    have hscanned := Scanned.longest (Longest.pair hpair rest)
    exact hscanned
  · next hnone =>
    have hpair : ∀ d ∈ cs.head?, Mark.pair? c d = none := by
      intro d hd
      rw [Option.mem_def.1 hd] at hnone
      exact hnone
    split
    · next m hm =>
      have hscanned := Scanned.longest (Longest.single hm hpair hcomment)
      exact hscanned
    · next hm => exact .unmatched (unmatched hfamily hm hpair hcomment)

/-- The scanner takes the longest word that any pattern matches. -/
theorem scanned_scan (c : Char) (cs : List Char) : Scanned c cs (scan c cs) := by
  unfold scan
  split
  · next hc => exact .of_run (Longest.blank hc cs)
  next hgap =>
  split
  · next hc => exact scanned_comment (by simpa using hc)
  next hcomment =>
  split
  · next hc => exact scanned_number hc cs
  next hdigit =>
  split
  · next hc =>
    obtain ⟨p, hlongest, hread⟩ := Longest.name_or_reserved hc cs
    have hscanned := Scanned.of_run hlongest
    rwa [hread] at hscanned
  next hname =>
  split
  · next hc =>
    subst hc
    exact scanned_literal Longest.quotedBy_str (fun _ => by simp [Pattern.read]) (fun _ => rfl) cs
  next hstr =>
  split
  · next hc =>
    subst hc
    exact scanned_literal Longest.quotedBy_char (fun _ => by simp [Pattern.read]) (fun _ => rfl) cs
  next hchar =>
  have hfamily : Family.ofChar c = .mark := by
    simp [Family.ofChar, hgap, hdigit, hname, hstr, hchar]
  exact scanned_mark hfamily (by simpa using hcomment)

end RemoteEval.Script
