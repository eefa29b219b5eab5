import Mathlib
import RemoteEval.Proofs.Parser.Depth

/-!
# Brackets and binary operators

Where every minus stands between two operands and there is no negation, nothing is nested but
brackets. Still the scan for the nesting limit takes each minus for an operator in front of an
operand : such a source is refused as nested too deep exactly if more brackets than the limit are
open somewhere, or as many as the limit in front of a minus (`parse_tooDeep_iff_brackets`). So a
difference inside of as many brackets as the limit allows is refused, though nothing in it is nested
deeper than that (`not_all_brackets_read`).
-/

namespace RemoteEval.Script

/-! ## Words around operands -/

/-- Whether a mark opens a bracket. -/
def Mark.opens : Mark → Bool
  | openParen | openBracket | openBrace => true
  | _ => false

/-- Whether a mark closes a bracket. -/
def Mark.closes : Mark → Bool
  | closeParen | closeBracket | closeBrace => true
  | _ => false

/-- Whether an operand may end with a word. -/
def Token.endsOperand : Token → Bool
  | mark m => m.closes
  | _ => true

/-- Whether an operand may begin with a word. -/
def Token.beginsOperand : Token → Bool
  | mark m => m.opens || m = .minus || m = .bang
  | _ => true

/-- Every minus stands between two operands : one ends in front of it and one begins behind it. -/
def MinusBetweenOperands (ts : List Token) : Prop :=
  ∀ us vs, ts = us ++ .mark .minus :: vs →
    (∃ t ∈ us.getLast?, t.endsOperand) ∧ ∃ t ∈ vs.head?, t.beginsOperand

/-- How many brackets are open behind a word with `n` open in front of it. A bracket that closes
nothing is passed over. -/
def bracketsThrough (n : Nat) : Token → Nat
  | .mark m => if m.opens then n + 1 else if m.closes then n - 1 else n
  | _ => n

/-- How many brackets are open behind some words. -/
def openBrackets (ts : List Token) : Nat := ts.foldl bracketsThrough 0

theorem openBrackets_snoc (us : List Token) (t : Token) :
    openBrackets (us ++ [t]) = bracketsThrough (openBrackets us) t := by
  rw [openBrackets, List.foldl_append, List.foldl_cons, List.foldl_nil, openBrackets]

/-- A single minus stands between two operands if it has them on its sides. -/
theorem minusBetweenOperands_of_single {us vs : List Token} (hus : .mark .minus ∉ us)
    (hvs : .mark .minus ∉ vs) (hends : ∃ t ∈ us.getLast?, t.endsOperand)
    (hbegins : ∃ t ∈ vs.head?, t.beginsOperand) :
    MinusBetweenOperands (us ++ .mark .minus :: vs) := by
  intro us' vs' hsplit
  obtain ⟨rfl, -, rfl⟩ := (List.append_cons_inj_of_notMem hus hvs).1 hsplit
  exact ⟨hends, hbegins⟩

/-! ## What counts against the limit -/

namespace Nesting

variable {ts us vs : List Token} {t : Token}

theorem depth_step (n : Nesting) (t : Token) : (n.step t).depth = bracketsThrough n.depth t := by
  cases t with
  | mark m => cases m <;> rfl
  | _ => rfl

theorem depth_after_none (ts : List Token) : (none.after ts).depth = openBrackets ts := by
  induction ts using List.reverseRecOn with
  | nil => rfl
  | append_singleton ts t ih =>
    rw [after_append, after_cons, after_nil, depth_step, ih, openBrackets_snoc]

theorem run_step_of_ne (hminus : t ≠ .mark .minus) (hbang : t ≠ .mark .bang) (n : Nesting) :
    (n.step t).run = 0 := by
  unfold step
  split <;> simp_all

/-- Behind an operand no operator counts. -/
theorem run_after_of_endsOperand (ht : t ∈ us.getLast?) (hends : t.endsOperand) (n : Nesting) :
    (n.after us).run = 0 := by
  obtain ⟨us, rfl⟩ := List.getLast?_eq_some_iff.1 ht
  rw [after_append, after_cons, after_nil]
  refine run_step_of_ne ?_ ?_ _
  · rintro rfl
    cases hends
  · rintro rfl
    cases hends

/-- The limit is kept if and only if it is kept behind each word. -/
theorem fits_iff_forall_split {n : Nesting} :
    n.Fits ts ↔ ∀ us t vs, ts = us ++ t :: vs → ((n.after us).step t).total ≤ nestingLimit := by
  constructor
  · rintro h us t vs rfl
    rw [fits_append, fits_cons] at h
    exact h.2.1
  · intro h
    induction ts generalizing n with
    | nil => trivial
    | cons t ts ih =>
      refine ⟨h [] t ts rfl, ih fun us u vs hsplit => ?_⟩
      rw [← after_cons]
      exact h (t :: us) u vs (by rw [hsplit, List.cons_append])

/-- A word counts as the brackets that are open behind it, and a minus as one more. -/
theorem total_of_minusBetweenOperands (hminus : MinusBetweenOperands (us ++ t :: vs))
    (hbang : .mark .bang ∉ us ++ t :: vs) :
    ((none.after us).step t).total =
      openBrackets (us ++ [t]) + if t = .mark .minus then 1 else 0 := by
  rw [total, depth_step, depth_after_none, openBrackets_snoc]
  congr 1
  split
  · next ht =>
    subst ht
    obtain ⟨⟨u, hu, hends⟩, -⟩ := hminus us vs rfl
    change (none.after us).run + 1 = 1
    rw [run_after_of_endsOperand hu hends]
  · next ht =>
    refine run_step_of_ne ht ?_ _
    rintro rfl
    simp at hbang

/-- Only brackets exceed the limit, or a minus behind as many brackets as the limit. -/
theorem not_fits_iff_brackets (hminus : MinusBetweenOperands ts) (hbang : .mark .bang ∉ ts) :
    ¬none.Fits ts ↔ (∃ us, us <+: ts ∧ nestingLimit < openBrackets us) ∨
      ∃ us vs, ts = us ++ .mark .minus :: vs ∧ openBrackets us = nestingLimit := by
  rw [fits_iff_forall_split]
  push Not
  constructor
  · rintro ⟨us, t, vs, rfl, htotal⟩
    rw [total_of_minusBetweenOperands hminus hbang] at htotal
    by_cases hdeep : nestingLimit < openBrackets (us ++ [t])
    · exact .inl ⟨us ++ [t], ⟨vs, by simp⟩, hdeep⟩
    · right
      split at htotal
      · next ht =>
        subst ht
        have hopen : openBrackets (us ++ [.mark .minus]) = openBrackets us := openBrackets_snoc us _
        exact ⟨us, vs, rfl, by omega⟩
      · omega
  · rintro (⟨us, ⟨vs, rfl⟩, hdeep⟩ | ⟨us, vs, rfl, hopen⟩)
    · induction us using List.reverseRecOn with
      | nil => cases hdeep
      | append_singleton us t =>
        refine ⟨us, t, vs, by simp, ?_⟩
        rw [List.append_assoc] at hminus hbang
        rw [total_of_minusBetweenOperands hminus hbang]
        omega
    · refine ⟨us, .mark .minus, vs, rfl, ?_⟩
      rw [total_of_minusBetweenOperands hminus hbang, if_pos rfl, openBrackets_snoc]
      change nestingLimit < openBrackets us + 1
      omega

end Nesting

/-! ## Sources -/

variable {source : List Char} {tokens : List (Placed Token)}

theorem exists_tooDeep_iff_not_fits (ht : tokenize source = .ok tokens) :
    (∃ p, parse source = .error (.malformed p .tooDeep)) ↔
      ¬Nesting.none.Fits (tokens.map Placed.item) := by
  rw [← Nesting.firstTooDeepFrom?_eq_none_iff, ← firstTooDeep?]
  simp only [parse, ht, parseTokens]
  cases firstTooDeep? tokens with
  | some t => simp
  | none => cases judge tokens <;> simp

/-- Where every minus stands between two operands and nothing is negated, a source is refused as
nested too deep if and only if more brackets than the limit are open behind some word, or as many as
the limit in front of a minus. -/
theorem parse_tooDeep_iff_brackets (ht : tokenize source = .ok tokens)
    (hminus : MinusBetweenOperands (tokens.map Placed.item))
    (hbang : .mark .bang ∉ tokens.map Placed.item) :
    (∃ p, parse source = .error (.malformed p .tooDeep)) ↔
      (∃ us, us <+: tokens.map Placed.item ∧ nestingLimit < openBrackets us) ∨
        ∃ us vs, tokens.map Placed.item = us ++ .mark .minus :: vs ∧
          openBrackets us = nestingLimit := by
  rw [exists_tooDeep_iff_not_fits ht, Nesting.not_fits_iff_brackets hminus hbang]

/-- A difference inside of as many brackets as the limit allows. -/
def enclosedDifference : List Char :=
  List.replicate nestingLimit '(' ++ ['1', '-', '2'] ++ List.replicate nestingLimit ')'

/-- The words of it in front of the minus. -/
def wordsBeforeMinus : List Token := List.replicate nestingLimit (.mark .openParen) ++ [.int 1]

/-- The words of it behind the minus. -/
def wordsBehindMinus : List Token := .int 2 :: List.replicate nestingLimit (.mark .closeParen)

theorem exists_tokenize_enclosedDifference :
    ∃ tokens, tokenize enclosedDifference = .ok tokens ∧
      tokens.map Placed.item = wordsBeforeMinus ++ .mark .minus :: wordsBehindMinus := by
  have h : (tokenize enclosedDifference).toOption.map (List.map Placed.item) =
      some (wordsBeforeMinus ++ .mark .minus :: wordsBehindMinus) := by
    decide +kernel
  cases ht : tokenize enclosedDifference with
  | error f => simp [ht, Except.toOption] at h
  | ok tokens =>
    rw [ht] at h
    exact ⟨tokens, rfl, Option.some.inj h⟩

theorem minusBetweenOperands_enclosedDifference :
    MinusBetweenOperands (wordsBeforeMinus ++ .mark .minus :: wordsBehindMinus) :=
  minusBetweenOperands_of_single (by decide +kernel) (by decide +kernel)
    ⟨.int 1, by simp [wordsBeforeMinus], rfl⟩ ⟨.int 2, rfl, rfl⟩

theorem bang_notMem_enclosedDifference :
    .mark .bang ∉ wordsBeforeMinus ++ .mark .minus :: wordsBehindMinus := by
  decide +kernel

theorem openBrackets_wordsBeforeMinus : openBrackets wordsBeforeMinus = nestingLimit := by
  decide +kernel

/-- Its minus counts as one more than the brackets around it. -/
theorem parse_tooDeep_enclosedDifference :
    ∃ tokens, tokenize enclosedDifference = .ok tokens ∧
      MinusBetweenOperands (tokens.map Placed.item) ∧ .mark .bang ∉ tokens.map Placed.item ∧
      ∃ p, parse enclosedDifference = .error (.malformed p .tooDeep) := by
  obtain ⟨tokens, ht, hwords⟩ := exists_tokenize_enclosedDifference
  have hminus := minusBetweenOperands_enclosedDifference
  have hbang := bang_notMem_enclosedDifference
  rw [← hwords] at hminus hbang
  exact ⟨tokens, ht, hminus, hbang, (parse_tooDeep_iff_brackets ht hminus hbang).2
    (.inr ⟨_, _, hwords, openBrackets_wordsBeforeMinus⟩)⟩

/-- Sources with no more brackets open than the limit, and with no operator in front of an operand,
are not all read. -/
theorem not_all_brackets_read :
    ¬∀ source tokens, tokenize source = .ok tokens →
      MinusBetweenOperands (tokens.map Placed.item) → .mark .bang ∉ tokens.map Placed.item →
      (∀ us, us <+: tokens.map Placed.item → openBrackets us ≤ nestingLimit) →
      ∀ p, parse source ≠ .error (.malformed p .tooDeep) := by
  intro h
  obtain ⟨tokens, ht, hwords⟩ := exists_tokenize_enclosedDifference
  have hminus := minusBetweenOperands_enclosedDifference
  have hbang := bang_notMem_enclosedDifference
  have hopen : ∀ us ∈ (wordsBeforeMinus ++ .mark .minus :: wordsBehindMinus).inits,
      openBrackets us ≤ nestingLimit := by
    decide +kernel
  rw [← hwords] at hminus hbang hopen
  have hdeep : ¬Nesting.none.Fits (tokens.map Placed.item) :=
    (Nesting.not_fits_iff_brackets hminus hbang).2
      (.inr ⟨_, _, hwords, openBrackets_wordsBeforeMinus⟩)
  obtain ⟨p, hp⟩ := (exists_tooDeep_iff_not_fits ht).2 hdeep
  exact h _ tokens ht hminus hbang (fun us hus => hopen us ((List.mem_inits _ _).2 hus)) p hp

end RemoteEval.Script
