import Mathlib.Data.List.TakeWhile
import RemoteEval.Text.Blank
import RemoteEval.Text.Pieces

/-!
# Pieces, lines and blanks

A text is made up of its pieces (`glue_pieces`), and of its lines with the newlines that end them
(`flatten_writtenLines`). What holds of the empty text, of a line that nothing ends, and of a line
and a newline before a text of which it holds, holds of every text (`lines_induction`). The trimmed
text is what stands between the blanks at both ends (`trim_eq_iff`).
-/

namespace RemoteEval.Text

variable {separator : Char} {p : Char → Bool} {us vs : List Char}

/-! ## Runs -/

/-- Characters up to the first that does not belong to them. -/
theorem takeWhile_append_of_head? (hus : ∀ c ∈ us, p c) (hvs : ∀ c ∈ vs.head?, p c = false) :
    (us ++ vs).takeWhile p = us := by
  rw [List.takeWhile_append_of_pos hus]
  cases vs with
  | nil => simp
  | cons c vs => simp [hvs c rfl]

/-- Characters from the first on that does not belong to those before. -/
theorem dropWhile_append_of_head? (hus : ∀ c ∈ us, p c) (hvs : ∀ c ∈ vs.head?, p c = false) :
    (us ++ vs).dropWhile p = vs := by
  rw [List.dropWhile_append_of_pos hus]
  cases vs with
  | nil => rfl
  | cons c vs => simp [hvs c rfl]

theorem head?_dropWhile (cs : List Char) : ∀ c ∈ (cs.dropWhile p).head?, p c = false := by
  intro c hc
  have h := List.head?_dropWhile_not p cs
  rw [Option.mem_def.1 hc] at h
  simpa using h

/-! ## Pieces -/

theorem pieces_of_notMem {cs : List Char} (h : separator ∉ cs) : pieces separator cs = [cs] := by
  induction cs with
  | nil => rfl
  | cons c cs ih =>
    rw [List.mem_cons, not_or] at h
    rw [pieces, if_neg fun hc => h.1 hc.symm, ih h.2]

theorem pieces_append {cs : List Char} (h : separator ∉ cs) (rest : List Char) :
    pieces separator (cs ++ separator :: rest) = cs :: pieces separator rest := by
  induction cs with
  | nil => rw [List.nil_append, pieces, if_pos rfl]
  | cons c cs ih =>
    rw [List.mem_cons, not_or] at h
    rw [List.cons_append, pieces, if_neg fun hc => h.1 hc.symm, ih h.2]

theorem pieces_glue {runs : List (List Char)} (hne : runs ≠ [])
    (h : ∀ run ∈ runs, separator ∉ run) : pieces separator (glue separator runs) = runs := by
  induction runs with
  | nil => exact (hne rfl).elim
  | cons run runs ih =>
    obtain ⟨hrun, hruns⟩ := List.forall_mem_cons.1 h
    cases runs with
    | nil => exact pieces_of_notMem hrun
    | cons next runs =>
      have hglue : glue separator (run :: next :: runs) =
          run ++ separator :: glue separator (next :: runs) := rfl
      rw [hglue, pieces_append hrun, ih (by simp) hruns]

theorem pieces_ne_nil (cs : List Char) : pieces separator cs ≠ [] := by
  cases cs with
  | nil => simp [pieces]
  | cons c cs =>
    rw [pieces]
    split
    · simp
    · split <;> simp

theorem pieces_cons_of_ne {c : Char} (hc : c ≠ separator) {cs first : List Char}
    {others : List (List Char)} (h : pieces separator cs = first :: others) :
    pieces separator (c :: cs) = (c :: first) :: others := by
  rw [pieces, if_neg hc, h]

/-- No piece holds the separator. -/
theorem notMem_of_mem_pieces {cs run : List Char} (h : run ∈ pieces separator cs) :
    separator ∉ run := by
  induction cs generalizing run with
  | nil => simp_all [pieces]
  | cons c cs ih =>
    by_cases hc : c = separator
    · rw [pieces, if_pos hc, List.mem_cons] at h
      obtain rfl | h := h
      · exact List.not_mem_nil
      · exact ih h
    · obtain ⟨first, others, hpieces⟩ := List.exists_cons_of_ne_nil (pieces_ne_nil cs)
      rw [pieces_cons_of_ne hc hpieces, List.mem_cons] at h
      rw [hpieces] at ih
      obtain rfl | h := h
      · exact List.not_mem_cons_of_ne_of_not_mem (fun hs => hc hs.symm) (ih (.head _))
      · exact ih (.tail _ h)

theorem glue_pieces (cs : List Char) : glue separator (pieces separator cs) = cs := by
  induction cs with
  | nil => rfl
  | cons c cs ih =>
    obtain ⟨first, others, hpieces⟩ := List.exists_cons_of_ne_nil (pieces_ne_nil cs)
    rw [hpieces] at ih
    by_cases hc : c = separator
    · rw [pieces, if_pos hc, hpieces, hc]
      exact congrArg (separator :: ·) ih
    · rw [pieces_cons_of_ne hc hpieces]
      cases others with
      | nil => exact congrArg (c :: ·) ih
      | cons next others => exact congrArg (c :: ·) ih

theorem glue_eq_nil_iff {runs : List (List Char)} :
    glue separator runs = [] ↔ runs = [] ∨ runs = [[]] := by
  cases runs with
  | nil => simp [glue]
  | cons run runs => cases runs <;> simp [glue]

/-! ## Lines -/

/-- The lines of a text, each with the newline that ends it. -/
def writtenLines : List Char → List (List Char)
  | [] => []
  | c :: cs =>
    if c = '\n' then [c] :: writtenLines cs
    else
      match writtenLines cs with
      | [] => [[c]]
      | line :: lines => (c :: line) :: lines

theorem writtenLines_of_notMem {line : List Char} (hne : line ≠ []) (h : '\n' ∉ line) :
    writtenLines line = [line] := by
  induction line with
  | nil => exact (hne rfl).elim
  | cons c cs ih =>
    rw [List.mem_cons, not_or] at h
    rw [writtenLines, if_neg fun hc => h.1 hc.symm]
    cases cs with
    | nil => rfl
    | cons d cs => rw [ih (by simp) h.2]

theorem writtenLines_append {line : List Char} (h : '\n' ∉ line) (rest : List Char) :
    writtenLines (line ++ '\n' :: rest) = (line ++ ['\n']) :: writtenLines rest := by
  induction line with
  | nil => rfl
  | cons c cs ih =>
    rw [List.mem_cons, not_or] at h
    rw [List.cons_append, writtenLines, if_neg fun hc => h.1 hc.symm, ih h.2]
    rfl

/-- A text is empty, or a line that nothing ends, or starts with a line that a newline ends. -/
theorem lines_induction {motive : List Char → Prop} (nil : motive [])
    (last : ∀ line, line ≠ [] → '\n' ∉ line → motive line)
    (line : ∀ line rest, '\n' ∉ line → motive rest → motive (line ++ '\n' :: rest))
    (cs : List Char) : motive cs := by
  -- The induction needs what has been read of the line that is not ended yet.
  have h (before : List Char) (hbefore : '\n' ∉ before) : motive (before ++ cs) := by
    induction cs generalizing before with
    | nil =>
      rw [List.append_nil]
      by_cases hne : before = []
      · rwa [hne]
      · exact last before hne hbefore
    | cons c cs ih =>
      by_cases hc : c = '\n'
      · rw [hc]
        exact line before cs hbefore (ih [] List.not_mem_nil)
      · rw [List.append_cons]
        refine ih (before ++ [c]) ?_
        simpa [hbefore] using fun h => hc h.symm
  exact h [] List.not_mem_nil

theorem flatten_writtenLines (cs : List Char) : (writtenLines cs).flatten = cs := by
  induction cs using lines_induction with
  | nil => rfl
  | last line hne h => simp [writtenLines_of_notMem hne h]
  | line line rest h ih => simp [writtenLines_append h, ih]

/-! ## Blanks at the ends -/

/-- A text with no blank at either end. -/
structure Trimmed (cs : List Char) : Prop where
  /-- It does not start with a blank. -/
  head : ∀ c ∈ cs.head?, isBlank c = false
  /-- It does not end with a blank. -/
  last : ∀ c ∈ cs.getLast?, isBlank c = false

theorem trimEnd_append {us vs : List Char} (hvs : ∀ c ∈ vs, isBlank c)
    (hus : ∀ c ∈ us.getLast?, isBlank c = false) : trimEnd (us ++ vs) = us := by
  rw [trimEnd, List.reverse_append, dropWhile_append_of_head?, List.reverse_reverse]
  · simpa using hvs
  · simpa using hus

/-- The blanks at the end that are dropped, and what is left. -/
theorem exists_trimEnd (cs : List Char) :
    ∃ vs, (∀ c ∈ vs, isBlank c) ∧ cs = trimEnd cs ++ vs ∧
      ∀ c ∈ (trimEnd cs).getLast?, isBlank c = false := by
  refine ⟨(cs.reverse.takeWhile isBlank).reverse, ?_, ?_, ?_⟩
  · intro c hc
    rw [List.mem_reverse] at hc
    exact List.mem_takeWhile_imp hc
  · rw [trimEnd, ← List.reverse_append, List.takeWhile_append_dropWhile, List.reverse_reverse]
  · rw [trimEnd, List.getLast?_reverse]
    exact head?_dropWhile _

/-- A text is trimmed to what stands between the blanks at its ends. -/
theorem trim_eq_iff {cs body : List Char} :
    trim cs = body ↔ Trimmed body ∧ ∃ us vs, (∀ c ∈ us, isBlank c) ∧ (∀ c ∈ vs, isBlank c) ∧
      cs = us ++ (body ++ vs) := by
  constructor
  · rintro rfl
    obtain ⟨vs, hvs, hcs, hlast⟩ := exists_trimEnd (cs.dropWhile isBlank)
    refine ⟨⟨?_, hlast⟩, cs.takeWhile isBlank, vs, ?_, hvs, ?_⟩
    · intro c hc
      have htrim : (trimEnd (cs.dropWhile isBlank)).head? = some c := hc
      refine head?_dropWhile cs c ?_
      rw [hcs, List.head?_append, htrim]
      rfl
    · exact fun c hc => List.mem_takeWhile_imp hc
    · rw [trim, ← hcs, List.takeWhile_append_dropWhile]
  · rintro ⟨hbody, us, vs, hus, hvs, rfl⟩
    cases body with
    | nil =>
      have hblank : ∀ c ∈ us ++ vs, isBlank c := List.forall_mem_append.2 ⟨hus, hvs⟩
      rw [trim, List.nil_append, List.dropWhile_eq_nil_iff.2 hblank]
      rfl
    | cons c body =>
      rw [trim, dropWhile_append_of_head? hus (by simpa using hbody.head)]
      exact trimEnd_append hvs hbody.last

/-- A newline behind a line is trimmed like any blank. -/
theorem trim_append_newline (line : List Char) : trim (line ++ ['\n']) = trim line := by
  obtain ⟨htrimmed, us, vs, hus, hvs, hline⟩ := trim_eq_iff.1 (rfl : trim line = _)
  refine trim_eq_iff.2 ⟨htrimmed, us, vs ++ ['\n'], hus, ?_, ?_⟩
  · exact List.forall_mem_append.2 ⟨hvs, List.forall_mem_singleton.2 rfl⟩
  · rw [← List.append_assoc (trim line), ← List.append_assoc us, ← hline]

end RemoteEval.Text
