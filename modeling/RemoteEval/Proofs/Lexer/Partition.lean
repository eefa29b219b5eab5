import RemoteEval.Proofs.Lexer.LongestMatch

/-!
# Tokens partition the source

Only one word at a place is the longest (`Longest.unique`), so there is one way to cut a text into
tokens with gaps between them. The scanner finds it (`cut_tokensFrom`, by induction on how much is
left), and whatever is cut in this way is what the scanner finds (`Tiles.tokensFrom_append`). A
source therefore scans as the tokens it is cut into (`tokenize_eq_ok_iff`), and one that fails is
cut up to its fault (`tokenize_partition`).
-/

namespace RemoteEval.Script

variable {c : Char} {word word' rest rest' text gap cs : List Char} {p q : Pattern}
  {offset : Nat} {tokens : List (Placed Token)} {t : Token}

/-! ## The longest word -/

theorem Longest.ne_nil (h : Longest p word rest) : word ≠ [] := by
  rintro rfl
  exact nil_notMem p h.fits

/-- Only one word is the longest, and one pattern is preferred. -/
theorem Longest.unique (h : Longest p word rest) (h' : Longest q word' rest')
    (heq : word ++ rest = word' ++ rest') : p = q ∧ word = word' := by
  have hword : word = word' := by
    obtain ⟨more, rfl, rfl⟩ | ⟨more, rfl, rfl⟩ := List.append_eq_append_iff.1 heq
    · rw [h.longest q more (List.prefix_append ..) h'.fits, List.append_nil]
    · rw [h'.longest p more (List.prefix_append ..) h.fits, List.append_nil]
  subst hword
  refine ⟨?_, rfl⟩
  obtain rfl | ⟨hp, rfl⟩ := h.preferred q h'.fits
  · rfl
  · obtain rfl | ⟨hq, -⟩ := h'.preferred p h.fits
    · rfl
    · cases hq

/-- With less behind it the longest word is the longest, too. -/
theorem Longest.of_append (h : Longest p word (text ++ rest)) : Longest p word text where
  fits := h.fits
  longest q more hmore := h.longest q more (hmore.trans (List.prefix_append ..))
  preferred := h.preferred

theorem scan_eq_of_longest (h : Longest p (c :: word) rest) :
    scan c (word ++ rest) = (p.read (c :: word), word.length) := by
  have hscanned := scanned_scan c (word ++ rest)
  generalize hcs : word ++ rest = cs at hscanned ⊢
  generalize scan c cs = result at hscanned ⊢
  cases hscanned with
  | longest h' =>
    obtain ⟨rfl, hword⟩ := h.unique h' (by rw [List.cons_append, List.cons_append, hcs])
    obtain ⟨-, rfl⟩ := List.cons.inj hword
    rfl
  | unmatched hnone =>
    refine (hnone p (c :: word) ?_ h.fits).elim
    rw [← hcs]
    exact List.prefix_append (c :: word) rest

/-- What is read from the longest word decides how the scanner goes on. -/
theorem tokensFrom_longest (h : Longest p word rest) (offset : Nat) :
    tokensFrom offset 0 (word ++ rest) =
      match p.read word with
      | .gap => tokensFrom (offset + width word) 0 rest
      | .token t =>
        (tokensFrom (offset + width word) 0 rest).map (⟨t, offset, offset + width word⟩ :: ·)
      | .fault f => .error ⟨f, offset, offset + width word⟩ := by
  cases word with
  | nil => exact (h.ne_nil rfl).elim
  | cons c word =>
    rw [List.cons_append]
    simp only [tokensFrom, scan_eq_of_longest h, List.take_left']
    rw [tokensFrom_skip, width_cons, ← Nat.add_assoc]
    cases p.read (c :: word) with
    | gap => rfl
    | token t => cases tokensFrom (offset + c.utf8Size + width word) 0 rest <;> rfl
    | fault f => rfl

theorem tokensFrom_unmatched (h : Unmatched (c :: rest)) (offset : Nat) :
    tokensFrom offset 0 (c :: rest) = .error ⟨.unexpected c, offset, offset + c.utf8Size⟩ := by
  have hscanned := scanned_scan c rest
  have hscan : scan c rest = (.fault (.unexpected c), 0) := by
    generalize scan c rest = result at hscanned ⊢
    cases hscanned with
    | longest h' => exact (h _ _ (List.prefix_append ..) h'.fits).elim
    | unmatched => rfl
  simp [tokensFrom, hscan, width]

/-- A word with nothing behind it is read as it is where the scanner cuts it out. -/
theorem tokenize_word (h : Longest p word rest) (hread : p.read word = .token t) :
    tokenize word = .ok [⟨t, 0, width word⟩] := by
  have hword : Longest p word [] := Longest.of_append h
  have halone := tokensFrom_longest hword 0
  rw [hread, List.append_nil, Nat.zero_add] at halone
  exact halone

/-! ## Gaps -/

theorem eq_blank_or_comment (h : p.read word = .gap) : p = .blank ∨ p = .comment := by
  cases p with
  | blank => exact .inl rfl
  | comment => exact .inr rfl
  | whole =>
    simp only [Pattern.read, wholeNumber] at h
    split at h <;> cases h
  | str =>
    simp only [Pattern.read, textLiteral] at h
    split at h <;> cases h
  | char =>
    simp only [Pattern.read, characterLiteral] at h
    split at h <;> cases h
  | _ => cases h

theorem Gap.prepend_blanks {blanks : List Char} (h : ∀ c ∈ blanks, isGap c = true)
    (hgap : Gap rest gap) : Gap rest (blanks ++ gap) := by
  induction blanks with
  | nil => exact hgap
  | cons c blanks ih =>
    obtain ⟨hc, hblanks⟩ := List.forall_mem_cons.1 h
    exact .blank hc (ih hblanks)

/-- What the scanner skips stands in a gap. -/
theorem Gap.prepend (h : Longest p word (gap ++ rest)) (hread : p.read word = .gap)
    (hgap : Gap rest gap) : Gap rest (word ++ gap) := by
  obtain rfl | rfl := eq_blank_or_comment hread
  · cases word with
    | nil => exact hgap
    | cons c word => exact hgap.prepend_blanks (List.forall_mem_cons.2 (cons_mem_run.1 h.fits))
  · obtain ⟨body, hbody, rfl⟩ := mem_spelled_mul.1 h.fits
    refine .comment (cons_mem_comment.1 h.fits) (fun c hc => ?_) hgap
    by_contra hne
    obtain ⟨more, hmore⟩ := List.head?_eq_some_iff.1 hc
    have hlonger := h.longest .comment [c] (by rw [hmore]; exact ⟨more, rfl⟩) ?_
    · cases hlonger
    · refine cons_mem_comment.2 fun hn => ?_
      obtain hn | hn := List.mem_append.1 hn
      · exact cons_mem_comment.1 h.fits hn
      · exact hne (List.mem_singleton.1 hn).symm

theorem Gap.of_append (h : Gap (text ++ rest) gap) : Gap text gap := by
  induction h with
  | nil => exact .nil
  | blank hc _ ih => exact .blank hc ih
  | @comment body gap hbody hend _ ih =>
    refine .comment hbody (fun c hc => hend c ?_) ih
    rw [← List.append_assoc, List.head?_append, Option.mem_def.1 hc]
    rfl

theorem Gap.tokensFrom_append (h : Gap rest gap) (offset : Nat) :
    tokensFrom offset 0 (gap ++ rest) = tokensFrom (offset + width gap) 0 rest := by
  induction h generalizing offset with
  | nil => rfl
  | blank hc _ ih => rw [List.cons_append, tokensFrom_gap hc, ih, width_cons, Nat.add_assoc]
  | comment hbody hend _ ih =>
    rw [List.append_assoc, tokensFrom_comment hbody hend, ih, width_append, Nat.add_assoc]

/-! ## Tiles -/

namespace Tiles

/-- A text that is cut is cut with a gap before it, too. -/
theorem prepend (h : Longest p word (text ++ rest)) (hread : p.read word = .gap)
    (ht : Tiles rest (offset + width word) text tokens) :
    Tiles rest offset (word ++ text) tokens := by
  cases ht with
  | done hgap => exact .done (hgap.prepend h hread)
  | @token _ gap word' text _ t tokens hgap hword hread' htext =>
    have hgap' : Gap (word' ++ text ++ rest) (word ++ gap) :=
      hgap.prepend (by simpa using h) hread
    have htext' : Tiles rest (offset + width (word ++ gap ++ word')) text tokens := by
      simpa [width_append, Nat.add_assoc] using htext
    simpa [width_append, Nat.add_assoc] using Tiles.token hgap' hword hread' htext'

/-- Without what stands behind it a text is cut as it is before it. -/
theorem alone (ht : Tiles rest offset text tokens) : Tiles [] offset text tokens := by
  induction ht with
  | @done _ gap hgap =>
    have hgap' : Gap [] gap := Gap.of_append hgap
    exact .done hgap'
  | @token _ gap word text p t tokens hgap hword hread _ ih =>
    have hgap' : Gap (word ++ text ++ []) gap := by
      rw [List.append_nil]
      exact hgap.of_append
    have hword' : Longest p word (text ++ []) := by
      rw [List.append_nil]
      exact hword.of_append
    exact .token hgap' hword' hread ih

/-- The scanner finds the tokens a text is cut into, and goes on behind the text. -/
theorem tokensFrom_append (ht : Tiles rest offset text tokens) :
    tokensFrom offset 0 (text ++ rest) =
      (tokensFrom (offset + width text) 0 rest).map (tokens ++ ·) := by
  induction ht with
  | @done offset gap hgap =>
    rw [hgap.tokensFrom_append]
    cases tokensFrom (offset + width gap) 0 rest <;> rfl
  | @token offset gap word text _ t tokens hgap hword hread _ ih =>
    have hstart := hgap.tokensFrom_append offset
    rw [List.append_assoc word, tokensFrom_longest hword, hread] at hstart
    simp only [width_append, ← Nat.add_assoc] at ih ⊢
    simp only [List.append_assoc, hstart, ih]
    cases tokensFrom (offset + width gap + width word + width text) 0 rest <;> rfl

/-- Tokens lie in the text they are cut from. -/
theorem bounds (ht : Tiles rest offset text tokens) :
    ∀ t ∈ tokens, offset ≤ t.start ∧ t.start < t.stop ∧ t.stop ≤ offset + width text := by
  induction ht with
  | done => exact fun _ ht => absurd ht List.not_mem_nil
  | token hgap hword hread _ ih =>
    have hpos := width_pos hword.ne_nil
    simp only [width_append] at ih ⊢
    refine List.forall_mem_cons.2 ⟨by dsimp only; omega, fun t ht => ?_⟩
    have := ih t ht
    omega

/-- A token ends before the next one starts. -/
theorem pairwise (ht : Tiles rest offset text tokens) :
    tokens.Pairwise fun s t => s.stop ≤ t.start := by
  induction ht with
  | done => exact .nil
  | token _ _ _ htext ih => exact .cons (fun t ht => (htext.bounds t ht).1) ih

/-- Where a token stands. -/
theorem placed (ht : Tiles rest offset text tokens) : ∀ t ∈ tokens,
    ∃ (p : Pattern) (before word after : List Char), text = before ++ word ++ after ∧
      t.start = offset + width before ∧ t.stop = t.start + width word ∧
      Longest p word (after ++ rest) ∧ p.read word = .token t.item := by
  induction ht with
  | done => exact fun _ ht => absurd ht List.not_mem_nil
  | @token offset gap word text p t tokens hgap hword hread _ ih =>
    refine List.forall_mem_cons.2 ⟨⟨p, gap, word, text, rfl, rfl, ?_, hword, hread⟩, ?_⟩
    · simp [width_append, Nat.add_assoc]
    · intro t ht
      obtain ⟨p, before, word', after, rfl, hstart, hstop, hword', hread'⟩ := ih t ht
      refine ⟨p, gap ++ word ++ before, word', after, by simp, ?_, hstop, hword', hread'⟩
      simpa [width_append, Nat.add_assoc] using hstart

end Tiles

/-- A fault is where no token stands, and is not empty. -/
theorem Fails.bounds {f : Placed LexicalFault} (h : Fails offset rest f) :
    f.start = offset ∧ f.start < f.stop ∧ f.stop ≤ offset + width rest := by
  cases h with
  | unreadable hword =>
    have hpos := width_pos hword.ne_nil
    rw [width_append]
    dsimp only
    omega
  | @unmatched c rest =>
    have hc := c.utf8Size_pos
    rw [width_cons]
    dsimp only
    omega

/-! ## The scanner cuts -/

/-- What the scanner makes of characters that start at `offset` : all of them are cut into its
tokens, or those before the place where it fails. -/
def Cut (offset : Nat) (cs : List Char) :
    Except (Placed LexicalFault) (List (Placed Token)) → Prop
  | .ok tokens => Tiles [] offset cs tokens
  | .error f => ∃ text rest tokens, cs = text ++ rest ∧ Tiles rest offset text tokens ∧
      Fails (offset + width text) rest f

/-- Behind the longest word the scanner goes on. -/
theorem Cut.of_longest (h : Longest p word rest)
    (hcut : Cut (offset + width word) rest (tokensFrom (offset + width word) 0 rest)) :
    Cut offset (word ++ rest) (tokensFrom offset 0 (word ++ rest)) := by
  rw [tokensFrom_longest h]
  cases hread : p.read word with
  | gap =>
    dsimp only
    cases hrest : tokensFrom (offset + width word) 0 rest with
    | ok tokens =>
      rw [hrest] at hcut
      exact Tiles.prepend (by simpa using h) hread hcut
    | error f =>
      rw [hrest] at hcut
      obtain ⟨text, rest, tokens, rfl, htiles, hfails⟩ := hcut
      refine ⟨word ++ text, rest, tokens, by simp, htiles.prepend h hread, ?_⟩
      rwa [width_append, ← Nat.add_assoc]
  | token t =>
    dsimp only
    cases hrest : tokensFrom (offset + width word) 0 rest with
    | ok tokens =>
      rw [hrest] at hcut
      have hword : Longest p word (rest ++ []) := by simpa using h
      have htiles := Tiles.token .nil hword hread hcut
      exact htiles
    | error f =>
      rw [hrest] at hcut
      obtain ⟨text, rest, tokens, rfl, htiles, hfails⟩ := hcut
      have htiles' := Tiles.token .nil h hread htiles
      refine ⟨word ++ text, rest, _, by simp, htiles', ?_⟩
      rwa [width_append, ← Nat.add_assoc]
  | fault f =>
    exact ⟨[], word ++ rest, [], rfl, .done .nil, .unreadable h hread⟩

/-- By induction on how much is left : what the scanner takes is the longest word. -/
theorem cut_tokensFrom (offset : Nat) (cs : List Char) :
    Cut offset cs (tokensFrom offset 0 cs) := by
  induction hn : cs.length using Nat.strong_induction_on generalizing offset cs with
  | _ n ih =>
    cases cs with
    | nil => exact Tiles.done .nil
    | cons c cs =>
      have hscanned := scanned_scan c cs
      generalize scan c cs = result at hscanned
      cases hscanned with
      | @longest p word rest h =>
        refine Cut.of_longest h (ih rest.length ?_ _ rest rfl)
        simp only [← hn, List.length_cons, List.length_append]
        omega
      | unmatched h =>
        rw [tokensFrom_unmatched h]
        exact ⟨[], c :: cs, [], rfl, .done .nil, .unmatched h⟩

theorem cut_tokenize (source : List Char) : Cut 0 source (tokenize source) :=
  cut_tokensFrom 0 source

/-- A source has one way to be cut into tokens, and those are the tokens it scans as. -/
theorem tokenize_eq_ok_iff {source : List Char} :
    tokenize source = .ok tokens ↔ Tiles [] 0 source tokens := by
  constructor
  · intro h
    have hcut := cut_tokenize source
    rwa [h] at hcut
  · intro ht
    have happend := ht.tokensFrom_append
    rw [List.append_nil] at happend
    rw [tokenize, happend, tokensFrom]
    simp [Except.map]

/-! ## The partition -/

/-- A token of `source` is cut out of it as the longest word at its place, and is read from that
word as it would be from the word alone. -/
def IsCutFrom (source : List Char) (t : Placed Token) : Prop :=
  ∃ (p : Pattern) (before word after : List Char), source = before ++ word ++ after ∧
    t.start = width before ∧ t.stop = t.start + width word ∧ Longest p word after ∧
    p.read word = .token t.item ∧ tokenize word = .ok [⟨t.item, 0, width word⟩]

theorem Tiles.isCutFrom {source : List Char} (ht : Tiles [] 0 source tokens) :
    ∀ t ∈ tokens, IsCutFrom source t := by
  intro t hmem
  obtain ⟨p, before, word, after, rfl, hstart, hstop, hword, hread⟩ := ht.placed t hmem
  rw [List.append_nil] at hword
  rw [Nat.zero_add] at hstart
  exact ⟨p, before, word, after, rfl, hstart, hstop, hword, hread, tokenize_word hword hread⟩

/-- Tokens partition the source. A source that scans is its tokens with gaps before, between and
behind them : none of them is empty, they follow each other, and each is cut out as the longest
word at its place. A source that fails is cut in this way up to the fault, what stands before the
fault scans as the tokens before it, and at the fault stands no token. -/
theorem tokenize_partition (source : List Char) :
    match tokenize source with
    | .ok tokens =>
      Tiles [] 0 source tokens ∧ tokens.Pairwise (fun s t => s.stop ≤ t.start) ∧
        ∀ t ∈ tokens, t.start < t.stop ∧ t.stop ≤ width source ∧ IsCutFrom source t
    | .error f =>
      ∃ (text rest : List Char) (tokens : List (Placed Token)), source = text ++ rest ∧
        f.start = width text ∧ f.start < f.stop ∧ f.stop ≤ width source ∧
        Fails (width text) rest f ∧ Tiles rest 0 text tokens ∧ tokenize text = .ok tokens := by
  have hcut := cut_tokenize source
  cases htokenize : tokenize source with
  | ok tokens =>
    rw [htokenize] at hcut
    refine ⟨hcut, hcut.pairwise, fun t ht => ?_⟩
    obtain ⟨-, hnonempty, hstop⟩ := hcut.bounds t ht
    exact ⟨hnonempty, by omega, hcut.isCutFrom t ht⟩
  | error f =>
    rw [htokenize] at hcut
    obtain ⟨text, rest, tokens, rfl, htiles, hfails⟩ := hcut
    rw [Nat.zero_add] at hfails
    obtain ⟨hstart, hnonempty, hstop⟩ := hfails.bounds
    refine ⟨text, rest, tokens, rfl, hstart, hnonempty, ?_, hfails, htiles,
      tokenize_eq_ok_iff.2 htiles.alone⟩
    rwa [width_append]

end RemoteEval.Script
