import RemoteEval.Resource.Catalog
import RemoteEval.Proofs.Lexer.Placement

/-!
# A header and the code behind it

The header of a script is read twice : line by line for what the script depends on, and character by
character for its tokens. Both take the lines that are blank or comments for the header (`heading`)
and what stands behind them for the code (`code`). The dependencies come from the header alone
(`entries_requires`, `heading_heading_append`), and the tokens from the code alone if the scanner
skips the blanks with which the lines of the header start (`tokensFrom_code`).
-/

namespace RemoteEval.Resource

open Text Script

variable {line argument source text : List Char}

/-- Whether behind the blanks that start a line stands nothing or a comment. -/
def isHeading (line : List Char) : Bool :=
  match line.dropWhile isBlank with
  | [] => true
  | '/' :: '/' :: _ => true
  | _ => false

/-- The lines of a source before its first line of code. -/
def heading (source : List Char) : List (List Char) :=
  (writtenLines source).takeWhile isHeading

/-- A source from its first line of code on. -/
def code (source : List Char) : List Char :=
  ((writtenLines source).dropWhile isHeading).flatten

/-- The first line of a text is a line of code. -/
def StartsWithCode (text : List Char) : Prop :=
  ∃ line ∈ (writtenLines text).head?, isHeading line = false

/-- A line names a path : blanks aside, it holds the directive and the path. -/
structure Names (line argument : List Char) : Prop where
  /-- The path is not empty. -/
  ne_nil : argument ≠ []
  /-- The path does not start or end with a blank. -/
  trimmed : Trimmed argument
  /-- Blanks may stand before the directive, before the path and behind it. -/
  text : ∃ us vs ws, (∀ c ∈ us, isBlank c) ∧ (∀ c ∈ vs, isBlank c) ∧ (∀ c ∈ ws, isBlank c) ∧
    line = us ++ (directive ++ (vs ++ argument) ++ ws)

/-- Each line that names a path makes an entry, in the order of the lines. -/
inductive Entries (entry : List Char → String) : List (List Char) → List String → Prop where
  | nil : Entries entry [] []
  | names {line argument : List Char} {lines : List (List Char)} {entries : List String} :
    Names line argument → Entries entry lines entries →
      Entries entry (line :: lines) (entry argument :: entries)
  | other {line : List Char} {lines : List (List Char)} {entries : List String} :
    (∀ argument, ¬Names line argument) → Entries entry lines entries →
      Entries entry (line :: lines) entries

/-! ## Lines of a header -/

theorem isHeading_iff :
    isHeading line ↔
      line.dropWhile isBlank = [] ∨ ∃ body, line.dropWhile isBlank = '/' :: '/' :: body := by
  unfold isHeading
  split <;> simp_all

/-- It does not matter whether a line is trimmed first. -/
theorem isHeaderLine_trim (line : List Char) : isHeaderLine (trim line) = isHeading line := by
  obtain ⟨hbody, us, vs, hus, hvs, hline⟩ := trim_eq_iff.1 (rfl : trim line = _)
  generalize trim line = body at hbody hline
  subst hline
  rw [Bool.eq_iff_iff, isHeading_iff]
  cases body with
  | nil =>
    have hblank : ∀ c ∈ us ++ ([] ++ vs), isBlank c := List.forall_mem_append.2 ⟨hus, hvs⟩
    exact iff_of_true rfl (.inl (List.dropWhile_eq_nil_iff.2 hblank))
  | cons c rest =>
    rw [dropWhile_append_of_head? hus (by simpa using hbody.head)]
    cases rest with
    | nil =>
      cases vs with
      | nil => simp [isHeaderLine]
      | cons d vs =>
        -- Behind a slash that is left alone stood a blank, so no comment has been cut.
        have hd : d ≠ '/' := fun h => absurd (hvs d (.head _)) (by rw [h]; decide)
        simp [isHeaderLine, hd]
    | cons d rest => simp [isHeaderLine, @eq_comm _ c, @eq_comm _ d]

theorem isHeading_append_newline (line : List Char) :
    isHeading (line ++ ['\n']) = isHeading line := by
  rw [← isHeaderLine_trim, trim_append_newline, isHeaderLine_trim]

/-! ## The two parts of a source -/

/-- A text starts with code unless it is empty or its first line belongs to the header. -/
theorem startsWithCode_last (hne : line ≠ []) (h : '\n' ∉ line) :
    StartsWithCode line ↔ isHeading line = false := by
  simp [StartsWithCode, writtenLines_of_notMem hne h]

theorem startsWithCode_line (h : '\n' ∉ line) (rest : List Char) :
    StartsWithCode (line ++ '\n' :: rest) ↔ isHeading line = false := by
  simp [StartsWithCode, writtenLines_append h, isHeading_append_newline]

theorem heading_of_startsWithCode (h : StartsWithCode source) : heading source = [] := by
  obtain ⟨line, hline, hcode⟩ := h
  obtain ⟨lines, hlines⟩ := List.head?_eq_some_iff.1 hline
  rw [heading, hlines, List.takeWhile_cons_of_neg (by simp [hcode])]

theorem code_of_startsWithCode (h : StartsWithCode source) : code source = source := by
  obtain ⟨line, hline, hcode⟩ := h
  obtain ⟨lines, hlines⟩ := List.head?_eq_some_iff.1 hline
  rw [code, hlines, List.dropWhile_cons_of_neg (by simp [hcode]), ← hlines, flatten_writtenLines]

theorem heading_line (hline : isHeading line) (h : '\n' ∉ line) (rest : List Char) :
    heading (line ++ '\n' :: rest) = (line ++ ['\n']) :: heading rest := by
  rw [← isHeading_append_newline] at hline
  rw [heading, writtenLines_append h, List.takeWhile_cons_of_pos hline, heading]

theorem code_line (hline : isHeading line) (h : '\n' ∉ line) (rest : List Char) :
    code (line ++ '\n' :: rest) = code rest := by
  rw [← isHeading_append_newline] at hline
  rw [code, writtenLines_append h, List.dropWhile_cons_of_pos hline, code]

theorem heading_last (hline : isHeading line) (hne : line ≠ []) (h : '\n' ∉ line) :
    heading line = [line] := by
  rw [heading, writtenLines_of_notMem hne h, List.takeWhile_cons_of_pos hline, List.takeWhile_nil]

theorem code_last (hline : isHeading line) (hne : line ≠ []) (h : '\n' ∉ line) :
    code line = [] := by
  rw [code, writtenLines_of_notMem hne h, List.dropWhile_cons_of_pos hline]
  rfl

/-- A source is empty, a line of the header that nothing ends, such a line before a source, or
starts with code. -/
theorem heading_induction {motive : List Char → Prop} (nil : motive [])
    (last : ∀ line, line ≠ [] → '\n' ∉ line → isHeading line → motive line)
    (line : ∀ line rest, '\n' ∉ line → isHeading line → motive rest → motive (line ++ '\n' :: rest))
    (code : ∀ text, StartsWithCode text → motive text) (source : List Char) : motive source := by
  induction source using lines_induction with
  | nil => exact nil
  | last l hne h =>
    cases hl : isHeading l with
    | true => exact last l hne h hl
    | false => exact code l ((startsWithCode_last hne h).2 hl)
  | line l rest h ih =>
    cases hl : isHeading l with
    | true => exact line l rest h hl ih
    | false => exact code _ ((startsWithCode_line h rest).2 hl)

/-- The header and the code make up the source. -/
theorem heading_append_code (source : List Char) :
    (heading source).flatten ++ code source = source := by
  rw [heading, code, ← List.flatten_append, List.takeWhile_append_dropWhile, flatten_writtenLines]

/-- What stands behind the header starts with code. -/
theorem startsWithCode_code (source : List Char) (h : code source ≠ []) :
    StartsWithCode (code source) := by
  induction source using heading_induction with
  | nil => exact (h rfl).elim
  | last line hne hn hline => exact (h (code_last hline hne hn)).elim
  | line line rest hn hline ih =>
    rw [code_line hline hn] at h ⊢
    exact ih h
  | code text htext => rwa [code_of_startsWithCode htext]

/-- A header stays what it is if other code stands behind it. -/
theorem heading_heading_append (htext : StartsWithCode text) (source : List Char)
    (h : code source ≠ []) : heading ((heading source).flatten ++ text) = heading source := by
  induction source using heading_induction with
  | nil => exact (h rfl).elim
  | last line hne hn hline => exact (h (code_last hline hne hn)).elim
  | line line rest hn hline ih =>
    rw [code_line hline hn] at h
    rw [heading_line hline hn, List.flatten_cons, List.append_assoc, List.append_assoc,
      List.singleton_append, heading_line hline hn, ih h]
  | code source hsource =>
    rw [heading_of_startsWithCode hsource]
    exact heading_of_startsWithCode htext

/-! ## Dependencies -/

theorem headerLines_line (h : '\n' ∉ line) (rest : List Char) :
    headerLines (line ++ '\n' :: rest) =
      if isHeading line then trim line :: headerLines rest else [] := by
  rw [headerLines, pieces_append h, List.map_cons, List.takeWhile_cons, isHeaderLine_trim,
    headerLines]

theorem headerLines_last (h : '\n' ∉ line) :
    headerLines line = if isHeading line then [trim line] else [] := by
  rw [headerLines, pieces_of_notMem h, List.map_singleton, List.takeWhile_cons, isHeaderLine_trim,
    List.takeWhile_nil]

/-- The lines that are read for directives are those of the header. -/
theorem filterMap_headerLines (source : List Char) :
    (headerLines source).filterMap directiveArgument? =
      ((heading source).map trim).filterMap directiveArgument? := by
  induction source using lines_induction with
  | nil => rfl
  | last line hne hn =>
    rw [headerLines_last hn]
    cases hline : isHeading line with
    | true =>
      rw [heading_last hline hne hn]
      rfl
    | false =>
      rw [heading_of_startsWithCode ((startsWithCode_last hne hn).2 hline)]
      rfl
  | line line rest hn ih =>
    rw [headerLines_line hn]
    cases hline : isHeading line with
    | true =>
      rw [heading_line hline hn, if_pos rfl, List.map_cons, trim_append_newline,
        List.filterMap_cons, List.filterMap_cons, ih]
    | false =>
      rw [heading_of_startsWithCode ((startsWithCode_line hn rest).2 hline)]
      rfl

theorem directiveArgument?_eq_some_iff :
    directiveArgument? line = some argument ↔
      argument ≠ [] ∧ ∃ rest, line = directive ++ rest ∧ trim rest = argument := by
  constructor
  · intro h
    unfold directiveArgument? at h
    split at h
    · next hprefix =>
      obtain ⟨rest, rfl⟩ := List.isPrefixOf_iff_prefix.1 hprefix
      rw [List.drop_left] at h
      split at h
      · cases h
      · next hne =>
        cases h
        exact ⟨hne, rest, rfl, rfl⟩
    · cases h
  · rintro ⟨hne, rest, rfl, rfl⟩
    rw [directiveArgument?, if_pos (by simp), List.drop_left]
    split
    · next h => exact (hne h).elim
    · rfl

theorem directiveArgument?_trim_eq_some_iff :
    directiveArgument? (trim line) = some argument ↔ Names line argument := by
  rw [directiveArgument?_eq_some_iff]
  constructor
  · rintro ⟨hne, rest, hline, hargument⟩
    obtain ⟨htrimmed, vs, ws, hvs, hws, rfl⟩ := trim_eq_iff.1 hargument
    obtain ⟨-, us, ws', hus, hws', rfl⟩ := trim_eq_iff.1 hline
    refine ⟨hne, htrimmed, us, vs, ws ++ ws', hus, hvs, ?_, by simp⟩
    exact List.forall_mem_append.2 ⟨hws, hws'⟩
  · rintro ⟨hne, htrimmed, us, vs, ws, hus, hvs, hws, rfl⟩
    have hlast : (directive ++ (vs ++ argument)).getLast? = argument.getLast? := by
      rw [← List.append_assoc, List.getLast?_append, List.getLast?_eq_some_getLast hne]
      rfl
    have hends : Trimmed (directive ++ (vs ++ argument)) :=
      ⟨fun c hc => by cases hc; rfl, by rw [hlast]; exact htrimmed.last⟩
    refine ⟨hne, vs ++ argument, trim_eq_iff.2 ⟨hends, us, ws, hus, hws, rfl⟩, ?_⟩
    exact trim_eq_iff.2 ⟨htrimmed, vs, [], hvs, List.forall_mem_nil _, by rw [List.append_nil]⟩

theorem entries_filterMap (entry : List Char → String) (lines : List (List Char)) :
    Entries entry lines (((lines.map trim).filterMap directiveArgument?).map entry) := by
  induction lines with
  | nil => exact .nil
  | cons line lines ih =>
    rw [List.map_cons]
    cases hline : directiveArgument? (trim line) with
    | none =>
      rw [List.filterMap_cons_none hline]
      refine .other (fun argument h => ?_) ih
      rw [directiveArgument?_trim_eq_some_iff.2 h] at hline
      cases hline
    | some argument =>
      rw [List.filterMap_cons_some hline]
      exact .names (directiveArgument?_trim_eq_some_iff.1 hline) ih

/-- What a directive names, as seen from the directory of the script. -/
def seenFrom (path : String) (argument : List Char) : String :=
  String.ofList (Path.joined (Path.parent path.toList) argument)

theorem requires_eq {fs : FileSystem} (hfs : ∀ path, fs.canonical? path = none)
    (path source : String) :
    requires fs path source =
      (((heading source.toList).map trim).filterMap directiveArgument?).map (seenFrom path) := by
  rw [requires, filterMap_headerLines]
  simp only [FileSystem.normalize, hfs, Option.getD_none]
  rfl

/-! ## Tokens -/

/-- A line of the header is dropped, up to the newline that ends it. -/
theorem tokensFrom_heading_line {rest : List Char} (hline : isHeading line) (hn : '\n' ∉ line)
    (hgaps : ∀ c ∈ line.takeWhile isBlank, isGap c) (hrest : ∀ c ∈ rest.head?, c = '\n')
    (offset : Nat) : tokensFrom offset 0 (line ++ rest) =
      tokensFrom (offset + width line) 0 rest := by
  have hsplit := List.takeWhile_append_dropWhile (p := isBlank) (l := line)
  generalize line.takeWhile isBlank = us at hgaps hsplit
  obtain hblank | ⟨body, hbody⟩ := isHeading_iff.1 hline
  · rw [hblank, List.append_nil] at hsplit
    rw [← hsplit]
    exact tokensFrom_gaps hgaps offset rest
  · rw [hbody] at hsplit
    have hnbody : '\n' ∉ body := fun h => hn (by simp [← hsplit, h])
    rw [← hsplit, List.append_assoc, tokensFrom_gaps hgaps, tokensFrom_comment hnbody hrest,
      width_append, Nat.add_assoc]

/-- The tokens of a source are those of its code. -/
theorem tokensFrom_code (source : List Char)
    (hgaps : ∀ line ∈ heading source, ∀ c ∈ line.takeWhile isBlank, isGap c) (offset : Nat) :
    tokensFrom offset 0 source =
      tokensFrom (offset + width (heading source).flatten) 0 (code source) := by
  induction source using heading_induction generalizing offset with
  | nil => rfl
  | last line hne hn hline =>
    rw [heading_last hline hne hn] at hgaps ⊢
    rw [code_last hline hne hn, List.flatten_singleton]
    have h : tokensFrom offset 0 (line ++ []) = tokensFrom (offset + width line) 0 [] :=
      tokensFrom_heading_line hline hn (hgaps line (.head _)) (fun c hc => by cases hc) offset
    rwa [List.append_nil] at h
  | line line rest hn hline ih =>
    rw [heading_line hline hn] at hgaps ⊢
    obtain ⟨hfirst, hothers⟩ := List.forall_mem_cons.1 hgaps
    -- The newline only adds to the blanks at the start of a line that is blank.
    have hgapsLine : ∀ c ∈ line.takeWhile isBlank, isGap c := by
      intro c hc
      refine hfirst c ?_
      rw [List.takeWhile_append]
      split
      · exact List.mem_append_left _ ((List.takeWhile_sublist _).subset hc)
      · exact hc
    rw [tokensFrom_heading_line hline hn hgapsLine (fun c hc => by cases hc; rfl),
      tokensFrom_newline, ih hothers, code_line hline hn, List.flatten_cons, width_append,
      width_append, Nat.add_assoc, Nat.add_assoc, Nat.add_assoc (width line)]
    rfl
  | code text htext =>
    rw [heading_of_startsWithCode htext, code_of_startsWithCode htext]
    rfl

/-! ## Both readings -/

/-- A source is a header and the code behind it. Each line of the header that names a path makes a
dependency, whatever the code is, and the tokens are those of the code, behind the header. -/
theorem header_apart_from_code {fs : FileSystem} (hfs : ∀ path, fs.canonical? path = none)
    (path source : String) :
    ((heading source.toList).flatten ++ code source.toList = source.toList ∧
      (code source.toList ≠ [] → StartsWithCode (code source.toList))) ∧
    Entries (seenFrom path) (heading source.toList) (requires fs path source) ∧
    (code source.toList ≠ [] → ∀ text : String, StartsWithCode text.toList →
      requires fs path (String.ofList (heading source.toList).flatten ++ text) =
        requires fs path source) ∧
    ((∀ line ∈ heading source.toList, ∀ c ∈ line.takeWhile isBlank, isGap c) →
      tokenize source.toList =
        movedTokens (· + width (heading source.toList).flatten)
          (tokenize (code source.toList))) := by
  refine ⟨⟨heading_append_code _, startsWithCode_code _⟩, ?_, ?_, ?_⟩
  · rw [requires_eq hfs]
    exact entries_filterMap _ _
  · intro hcode text htext
    rw [requires_eq hfs, requires_eq hfs, String.toList_append, String.toList_ofList,
      heading_heading_append htext _ hcode]
  · intro hgaps
    rw [tokenize, tokensFrom_code _ hgaps, tokensFrom_add, tokenize]

theorem header_apart_from_code_required :
    (∀ path, FileSystem.empty.canonical? path = none) ∧
    requires FileSystem.empty "/s/top" "// require: base\r\n \nx" = ["/s/base"] ∧
    requires FileSystem.empty "/s/top" "// require: base\r\n \ny" = ["/s/base"] ∧
    tokenize "// require: base\r\n \nx".toList = movedTokens (· + 20) (tokenize ['x']) := by
  have h := @header_apart_from_code .empty (fun _ => rfl) "/s/top"
    "// require: base\r\n \nx"
  have hrequires : requires FileSystem.empty "/s/top" "// require: base\r\n \nx" = ["/s/base"] := by
    decide
  have hgaps : (heading "// require: base\r\n \nx".toList).all
      fun line => (line.takeWhile isBlank).all isGap := by
    decide
  refine ⟨fun _ => rfl, hrequires, ?_, h.2.2.2 (by simpa using hgaps)⟩
  rw [← hrequires, ← h.2.2.1 (by decide) "y" ⟨_, rfl, rfl⟩]
  rfl

end RemoteEval.Resource
