import Mathlib
import RemoteEval.Proofs.Lexer.Partition
import RemoteEval.Proofs.Parser.Sequence
import RemoteEval.Proofs.Script.Faults
import RemoteEval.Proofs.Script.Framing
import RemoteEval.Proofs.Text.Digits
import RemoteEval.Proofs.Text.Lines

/-!
# Positions that are reported

The position of an offset is counted from the text before it (`Position.locate_append`). What is
told to be malformed is told where a token starts, or where what is no token does
(`malformedAt_of_parse`). What fails while it runs is told at the offset of a construct, and so
where a token starts (`tokenAt_of_failed`). Nothing else is told with a position, and the position
can be read off what is told (`Position.text_append_inj`).
-/

namespace RemoteEval.Script

variable {source : List Char} {tokens : List (Placed Token)} {t : Placed Token}

/-! ## Lines and columns -/

namespace Position

/-- The position behind a text : one line more than there are newlines in it, and one column more
than there are characters behind the last of them. -/
def behind (text : List Char) : Position :=
  ⟨text.count '\n' + 1, (text.reverse.takeWhile (· ≠ '\n')).length + 1⟩

theorem behind_concat (text : List Char) (c : Char) :
    behind (text ++ [c]) = (behind text).advance c := by
  unfold behind advance
  by_cases hc : c = '\n' <;> simp [hc]

theorem foldl_advance_origin (text : List Char) : text.foldl advance origin = behind text := by
  induction text using List.reverseRecOn with
  | nil => rfl
  | append_singleton text c ih =>
    rw [List.foldl_append, ih, behind_concat, List.foldl_cons, List.foldl_nil]

/-- A position is counted from the text before it. -/
theorem locate_append (before rest : List Char) :
    locate (before ++ rest) (width before) = behind before := by
  have hlocate := locateFrom_append origin before rest 0
  rwa [Nat.add_zero, locateFrom_zero, foldl_advance_origin] at hlocate

/-! ## Positions as text -/

/-- A number is known from its digits, if none stands behind them. -/
theorem toString_append_inj {m n : Nat} {us vs : List Char}
    (hus : ∀ c ∈ us.head?, c.isDigit = false) (hvs : ∀ c ∈ vs.head?, c.isDigit = false)
    (h : (toString m).toList ++ us = (toString n).toList ++ vs) : m = n ∧ us = vs := by
  have hdigits (k : Nat) : ∀ c ∈ (toString k).toList, c.isDigit = true := by
    intro c hc
    rw [Nat.toString_eq_repr, Nat.toList_repr] at hc
    exact Text.isDigit_of_mem_toDigits hc
  have hsame : (toString m).toList = (toString n).toList := by
    rw [← Text.takeWhile_append_of_head? (hdigits m) hus, h,
      Text.takeWhile_append_of_head? (hdigits n) hvs]
  refine ⟨Nat.repr_injective (String.toList_injective hsame), ?_⟩
  rw [hsame] at h
  exact List.append_cancel_left h

theorem toList_text (p : Position) (s : String) :
    (p.text ++ s).toList = '(' :: ((toString p.line).toList ++
      ',' :: ((toString p.column).toList ++ ')' :: s.toList)) := by
  simp [text, String.toList_append]

/-- A position is known from its text. -/
theorem text_append_inj {p q : Position} {s s' : String} (h : p.text ++ s = q.text ++ s') :
    p = q ∧ s = s' := by
  have hno {c : Char} (hc : c.isDigit = false) (cs : List Char) :
      ∀ d ∈ (c :: cs).head?, d.isDigit = false := by
    rintro _ ⟨⟩
    exact hc
  have hlist := congrArg String.toList h
  rw [toList_text, toList_text] at hlist
  obtain ⟨hline, hbehind⟩ := toString_append_inj (hno rfl _) (hno rfl _) (List.cons.inj hlist).2
  obtain ⟨hcolumn, hrest⟩ := toString_append_inj (hno rfl _) (hno rfl _) (List.cons.inj hbehind).2
  refine ⟨?_, String.toList_injective (List.cons.inj hrest).2⟩
  cases p
  cases q
  cases hline
  cases hcolumn
  rfl

end Position

/-! ## What stands at a position -/

/-- A token of a source starts at a position. -/
def TokenAt (source : List Char) (t : Token) (p : Position) : Prop :=
  ∃ (before word after : List Char) (tokens : List (Placed Token)),
    source = before ++ word ++ after ∧ tokenize source = .ok tokens ∧
      ⟨t, width before, width (before ++ word)⟩ ∈ tokens ∧ p = .behind before

/-- What is no token of a source starts at a position. -/
def FaultAt (source : List Char) (fault : LexicalFault) (p : Position) : Prop :=
  ∃ (before rest : List Char) (stop : Nat),
    source = before ++ rest ∧ tokenize source = .error ⟨fault, width before, stop⟩ ∧
      Fails (width before) rest ⟨fault, width before, stop⟩ ∧ p = .behind before

/-- What makes a source malformed starts at a position. -/
def MalformedAt (source : List Char) (p : Position) : Malformation → Prop
  | .lexical fault => FaultAt source fault p
  | .tooDeep => ∃ t, TokenAt source t p
  | .unexpected t => TokenAt source t p

/-- A token starts where it is located. -/
theorem tokenAt_of_mem (htokens : tokenize source = .ok tokens) (ht : t ∈ tokens) :
    TokenAt source t.item (.locate source t.start) := by
  obtain ⟨p, before, word, after, rfl, hstart, hstop, -⟩ :=
    (tokenize_eq_ok_iff.1 htokens).isCutFrom t ht
  obtain ⟨item, start, stop⟩ := t
  obtain rfl : start = width before := hstart
  obtain rfl : stop = width (before ++ word) := hstop.trans (width_append before word).symm
  refine ⟨before, word, after, tokens, rfl, htokens, ht, ?_⟩
  rw [List.append_assoc, Position.locate_append]

/-- What is no token starts where it is located. -/
theorem faultAt_of_tokenize {f : Placed LexicalFault} (h : tokenize source = .error f) :
    FaultAt source f.item (.locate source f.start) := by
  have hcut := cut_tokenize source
  rw [h] at hcut
  obtain ⟨before, rest, _, rfl, -, hfails⟩ := hcut
  rw [Nat.zero_add] at hfails
  obtain ⟨item, start, stop⟩ := f
  obtain rfl : start = width before := hfails.bounds.1
  exact ⟨before, rest, stop, rfl, h, hfails, Position.locate_append before rest⟩

/-! ## Sources that are refused -/

theorem mem_of_firstTooDeepFrom? {n : Nesting} (h : firstTooDeepFrom? n tokens = some t) :
    t ∈ tokens := by
  induction tokens generalizing n with
  | nil => cases h
  | cons u rest ih =>
    rw [firstTooDeepFrom?] at h
    split at h
    · cases h
      exact .head _
    · exact .tail _ (ih h)

theorem mem_of_judge (h : judge tokens = .unexpected t) : t ∈ tokens := by
  have hmeans := means_judge tokens
  rw [h] at hmeans
  obtain ⟨before, after, rfl, -⟩ := hmeans
  exact List.mem_append_right _ (.head _)

/-- A malformation is located where it is. -/
theorem malformedAt_of_parse {p : Position} {cause : Malformation}
    (h : parse source = .error (.malformed p cause)) : MalformedAt source p cause := by
  unfold parse at h
  split at h
  · next f hf =>
    have hfault := faultAt_of_tokenize hf
    unfold Refusal.ofLexical at h
    split at h <;> cases h
    exact hfault
  · next tokens htokens =>
    unfold parseTokens at h
    split at h
    · next t ht =>
      cases h
      exact ⟨t.item, tokenAt_of_mem htokens (mem_of_firstTooDeepFrom? ht)⟩
    · split at h <;> cases h
      next hjudge => exact tokenAt_of_mem htokens (mem_of_judge hjudge)

/-! ## Programs that fail -/

/-- A construct fails where one of its tokens starts. -/
theorem tokenAt_of_execute {w : Surroundings} {p : Program} {position : Position}
    {cause : Failure} {r : Run} (hparse : parse source = .ok p)
    (h : (execute ⟨source, w⟩ p none r).1 = .error (.failed position cause)) :
    ∃ t, TokenAt source t position := by
  obtain ⟨tokens, htokens, -, hjudge⟩ := parse_eq_ok_iff.1 hparse
  cases Action.FailsIn.execute p none (List.Subset.refl _) r _ h with
  | failed hoffset =>
    obtain ⟨t, ht, rfl⟩ := List.mem_map.1 (offsets_subset_of_judge hjudge hoffset)
    exact ⟨t.item, tokenAt_of_mem htokens ht⟩

/-- What the position of a fault is, if it has one. -/
def Fault.Located (source : List Char) : Fault → Prop
  | .malformed position cause => MalformedAt source position cause
  | .failed position _ => ∃ t, TokenAt source t position
  | .undefined _ | .interrupted => True

theorem located_of_evaluate {w : Surroundings} {input : String} {m : Memory} {f : Fault}
    (h : (evaluate w input m).1 = .error f) : f.Located input.toList := by
  unfold evaluate at h
  split at h
  · cases h
  · next position cause hparse =>
    cases h
    exact malformedAt_of_parse hparse
  · next p hparse =>
    split at h
    · cases h
    · next r heq =>
      cases h
      have hfails := congrArg Prod.fst heq
      cases f with
      | malformed position cause =>
        have harises := Action.FailsIn.execute p none (List.Subset.refl _) _ _ hfails
        exact (harises.ne_malformed position cause rfl).elim
      | failed position cause => exact tokenAt_of_execute hparse hfails
      | undefined | interrupted => trivial

/-- Every position that is reported is one of the input. An input that is malformed is so at the
position that is told : there starts what is no token, or the token that cannot be gone on with. A
failure whose message starts with a line and a column is one of a construct, and there starts a
token of it. -/
theorem evaluate_positions (w : Surroundings) (input : String) (m : Memory) (f : Fault)
    (h : (evaluate w input m).1 = .error f) :
    (∀ position cause, f = .malformed position cause →
        MalformedAt input.toList position cause) ∧
      ∀ (line column : Nat) (rest : String), f.kind = "RuntimeError" →
        f.message = "(" ++ toString line ++ "," ++ toString column ++ "):" ++ rest →
        ∃ t, TokenAt input.toList t ⟨line, column⟩ := by
  have hlocated := located_of_evaluate h
  constructor
  · rintro position cause rfl
    exact hlocated
  · intro line column rest hkind hmessage
    cases f with
    | failed position cause =>
      have hcolon : "):" = ")" ++ ":" := rfl
      have htext : position.text ++ (": " ++ cause.message) =
          (Position.mk line column).text ++ (":" ++ rest) := by
        simpa only [Fault.message, Position.text, hcolon, String.append_assoc] using hmessage
      obtain ⟨rfl, -⟩ := Position.text_append_inj htext
      exact hlocated
    | malformed | undefined | interrupted => simp [Fault.kind] at hkind

/-- A bracket on the second line, behind characters of two octets, and a character that starts no
token. -/
theorem evaluate_positions_second_line :
    (evaluate .quiet "x = 'é';\n['ü', x][2]" .empty).1 = .error (.failed ⟨2, 9⟩ (.outOfRange 2)) ∧
      (∃ t, TokenAt "x = 'é';\n['ü', x][2]".toList t ⟨2, 9⟩) ∧
      (evaluate .quiet "'é';\n'ü' $" .empty).1 =
        .error (.malformed ⟨2, 5⟩ (.lexical (.unexpected '$'))) ∧
      FaultAt "'é';\n'ü' $".toList (.unexpected '$') ⟨2, 5⟩ := by
  have htokens : tokenize "x = 'é';\n['ü', x][2]".toList = .ok
      [⟨.name "x", 0, 1⟩, ⟨.mark .assign, 2, 3⟩, ⟨.char 'é', 4, 8⟩, ⟨.mark .semicolon, 8, 9⟩,
        ⟨.mark .openBracket, 10, 11⟩, ⟨.char 'ü', 11, 15⟩, ⟨.mark .comma, 15, 16⟩,
        ⟨.name "x", 17, 18⟩, ⟨.mark .closeBracket, 18, 19⟩, ⟨.mark .openBracket, 19, 20⟩,
        ⟨.int 2, 20, 21⟩, ⟨.mark .closeBracket, 21, 22⟩] := by cbv
  have hparse : parse "x = 'é';\n['ü', x][2]".toList =
      .ok [.assign "x" (.char 'é'), .bare (.index (.array [.char 'ü', .var "x"]) (.int 2) 19)] := by
    rw [parse, htokens]
    rfl
  have hindex : (evaluate .quiet "x = 'é';\n['ü', x][2]" .empty).1 =
      .error (.failed ⟨2, 9⟩ (.outOfRange 2)) := by
    rw [evaluate_of_parse hparse]
    cbv
  have hfault : tokenize "'é';\n'ü' $".toList = .error ⟨.unexpected '$', 11, 12⟩ := by cbv
  have hdollar : (evaluate .quiet "'é';\n'ü' $" .empty).1 =
      .error (.malformed ⟨2, 5⟩ (.lexical (.unexpected '$'))) := by
    rw [evaluate, parse, hfault]
    cbv
  refine ⟨hindex, ?_, hdollar, (evaluate_positions _ _ _ _ hdollar).1 _ _ rfl⟩
  refine (evaluate_positions _ _ _ _ hindex).2 2 9 (" " ++ (Failure.outOfRange 2).message) rfl ?_
  have hcolon : ": " = ":" ++ " " := rfl
  rw [Fault.message, Position.text, hcolon]
  simp only [String.append_assoc]
  rfl

end RemoteEval.Script
