import RemoteEval.Config.Json
import RemoteEval.Proofs.Text.Digits
import RemoteEval.Proofs.Text.Lines

/-!
# Values that are read as they were written

What is written of a text between its quotes, escapes and all, is read as the code units of its
characters (`Json.units?_flatMap`), and the digits of a number as the number
(`Json.readNumber?_toDigits`). So a value is read back from its text (`Json.read?_write`) if nothing
in it is a literal that is only kept as it was spelled (`Json.IsPlain`). Reading takes no more steps
than there are characters.
-/

namespace RemoteEval.Config

open Text (takeWhile_append_of_head? exists_leading_digit exists_toDigits_cons
  isDigit_of_mem_toDigits)

/-! ## Texts -/

namespace Json

variable {c : Char} {cs rest : List Char}

theorem units?_quote (cs : List Char) : units? ('"' :: cs) = some ([], cs) := by
  rw [units?.eq_def]
  rfl

/-- One more unit in front. -/
def withUnit (n : Nat) (read : Option (List Nat × List Char)) : Option (List Nat × List Char) :=
  read.map fun (ns, after) => (n :: ns, after)

theorem units?_plain (hquote : c ≠ '"') (hescape : c ≠ '\\') (hcontrol : ¬c.toNat < 0x20) :
    units? (c :: cs) = withUnit c.toNat (units? cs) := by
  rw [units?.eq_def]
  simp only [hquote, hescape, hcontrol, if_false]
  cases units? cs <;> rfl

theorem units?_short {e s : Char} (he : shortEscape? e = some s) :
    units? ('\\' :: e :: cs) = withUnit s.toNat (units? cs) := by
  have hu : e ≠ 'u' := by
    rintro rfl
    cases he
  rw [units?.eq_def]
  simp only [reduceIte]
  simp [he, hu]
  cases units? cs <;> rfl

theorem units?_hex {a b c d : Char} {n : Nat} (h : hexUnit? a b c d = some n) :
    units? ('\\' :: 'u' :: a :: b :: c :: d :: cs) = withUnit n (units? cs) := by
  rw [units?.eq_def]
  simp [h]
  cases units? cs <;> rfl

/-- Whether a code point is read back from its escape. -/
def readsEscape (n : Nat) : Bool :=
  match controlEscape (Char.ofNat n) with
  | ['\\', 'u', a, b, c, d] => hexUnit? a b c d = some n
  | _ => false

theorem readsEscape_of_lt : ∀ n < 0x20, readsEscape n := by decide

theorem units?_controlEscape (h : c.toNat < 0x20) :
    units? (controlEscape c ++ cs) = withUnit c.toNat (units? cs) := by
  have hread := readsEscape_of_lt _ h
  rw [readsEscape, Char.ofNat_toNat] at hread
  split at hread
  · next a b d e heq =>
    rw [heq]
    exact units?_hex (of_decide_eq_true hread)
  · cases hread

/-- A character is read back as the unit it is. -/
theorem units?_escapedChar (c : Char) (cs : List Char) :
    units? (escapedChar c ++ cs) = withUnit c.toNat (units? cs) := by
  unfold escapedChar
  split
  any_goals exact units?_short rfl
  next hquote hescape _ _ _ _ _ =>
  split
  · next h => exact units?_controlEscape h
  · next h => exact units?_plain hquote hescape h

theorem units?_flatMap (s rest : List Char) :
    units? (s.flatMap escapedChar ++ '"' :: rest) = some (s.map Char.toNat, rest) := by
  induction s with
  | nil => exact units?_quote rest
  | cons c s ih =>
    rw [List.flatMap_cons, List.append_assoc, units?_escapedChar, ih]
    rfl

theorem pairUp?_map_toNat (s : List Char) : pairUp? (s.map Char.toNat) = some s := by
  induction s with
  | nil => rfl
  | cons c s ih =>
    have hvalid : c.toNat < 0xD800 ∨ 0xDFFF < c.toNat ∧ c.toNat < 0x110000 := c.valid
    have hleading : isLeadingHalf c.toNat = false := by
      simp only [isLeadingHalf, Bool.and_eq_false_iff, decide_eq_false_iff_not]
      omega
    have htrailing : isTrailingHalf c.toNat = false := by
      simp only [isTrailingHalf, Bool.and_eq_false_iff, decide_eq_false_iff_not]
      omega
    rw [List.map_cons, pairUp?.eq_def]
    simp [hleading, htrailing, ih]

theorem readName?_writeText (s : String) (rest : List Char) :
    readName? (s.toList.flatMap escapedChar ++ '"' :: rest) = some (.text s, rest) := by
  rw [readName?, units?_flatMap]
  simp [pairUp?_map_toNat]

/-! ## Numbers -/

/-- Whether a number may go on with a character. -/
def isNumberPart (c : Char) : Bool :=
  c.isDigit || c = '.' || c = 'e' || c = 'E'

/-- No number goes on with the characters. -/
def EndsNumber (rest : List Char) : Prop := ∀ c ∈ rest.head?, isNumberPart c = false

theorem EndsNumber.nil : EndsNumber [] := by simp [EndsNumber]

theorem EndsNumber.cons (h : isNumberPart c = false) (cs : List Char) : EndsNumber (c :: cs) := by
  simpa [EndsNumber] using h

theorem EndsNumber.isDigit (h : EndsNumber rest) : ∀ c ∈ rest.head?, c.isDigit = false := by
  intro c hc
  have hpart := h c hc
  simp only [isNumberPart, Bool.or_eq_false_iff] at hpart
  exact hpart.1.1.1

theorem EndsNumber.fraction? (h : EndsNumber rest) : fraction? rest = some [] := by
  unfold Json.fraction?
  split
  · next cs =>
    have hpart := h '.' rfl
    cases hpart
  · rfl

theorem EndsNumber.exponent? (h : EndsNumber rest) : exponent? rest = some [] := by
  unfold Json.exponent?
  cases rest with
  | nil => rfl
  | cons c cs =>
    have hpart := h c rfl
    simp only [isNumberPart, Bool.or_eq_false_iff] at hpart
    simp [hpart.1.2, hpart.2]

theorem digits_toDigits (n : Nat) (h : EndsNumber rest) :
    digits (Nat.toDigits 10 n ++ rest) = Nat.toDigits 10 n :=
  takeWhile_append_of_head? (fun _ => isDigit_of_mem_toDigits) h.isDigit

theorem whole_toDigits (n : Nat) (h : EndsNumber rest) :
    whole (Nat.toDigits 10 n ++ rest) = Nat.toDigits 10 n := by
  unfold whole
  cases n with
  | zero => rfl
  | succ n =>
    obtain ⟨d, ds, hd, -, hdigits⟩ := exists_leading_digit (b := 10) (by decide) n.succ_pos
    have hzero : (Nat.toDigits 10 (n + 1) ++ rest).head? ≠ some '0' := by
      simp [hdigits, Nat.digitChar_eq_zero, Nat.ne_of_gt hd]
    rw [if_neg hzero, digits_toDigits _ h]

theorem naturalOf_toDigits (n : Nat) : naturalOf (Nat.toDigits 10 n) = n :=
  Nat.ofDigitChars_ten_toDigits

theorem readNumber?_toDigits (n : Nat) (h : EndsNumber rest) :
    readNumber? (Nat.toDigits 10 n ++ rest) = some (natural n, rest) := by
  obtain ⟨d, ds, hdigits, hd⟩ := exists_toDigits_cons n
  have hminus : d ≠ '-' := by
    rintro rfl
    cases hd
  have hsign : ((Nat.toDigits 10 n ++ rest).take 1).filter (· = '-') = [] := by
    simp [hdigits, hminus]
  simp [readNumber?, hsign, whole_toDigits n h, h.fraction?, h.exponent?, Nat.toDigits_ne_nil,
    naturalOf_toDigits]

/-! ## Values -/

theorem skip_cons (h : isBlank c = false) (cs : List Char) : skip (c :: cs) = c :: cs := by
  simp [skip, h]

theorem ne_of_isDigit {d : Char} (hc : c.isDigit) (hd : d.isDigit = false) : c ≠ d := by
  rintro rfl
  rw [hc] at hd
  cases hd

theorem isBlank_of_isDigit (hc : c.isDigit) : isBlank c = false := by
  simp [isBlank, ne_of_isDigit hc (d := ' ') rfl, ne_of_isDigit hc (d := '\n') rfl,
    ne_of_isDigit hc (d := '\t') rfl, ne_of_isDigit hc (d := '\r') rfl]

/-- What starts with a digit is read as a number. -/
theorem value?_of_isDigit (hc : c.isDigit) (fuel : Nat) (cs : List Char) :
    value? (fuel + 1) (c :: cs) = readNumber? (c :: cs) := by
  have hne : ∀ d : Char, d.isDigit = false → c ≠ d := fun d => ne_of_isDigit hc
  have hplain : readPlain? (c :: cs) = readNumber? (c :: cs) := by
    simp [readPlain?, after?, (hne 'n' rfl).symm, (hne 't' rfl).symm, (hne 'f' rfl).symm]
  rw [value?, skip_cons (isBlank_of_isDigit hc)]
  split
  · next h => exact (hne _ rfl (List.cons.inj h).1).elim
  · next h => exact (hne _ rfl (List.cons.inj h).1).elim
  · next h => exact (hne _ rfl (List.cons.inj h).1).elim
  · exact hplain

theorem value?_quote (fuel : Nat) (cs : List Char) :
    value? (fuel + 1) ('"' :: cs) = readText? cs := by
  rw [value?, skip_cons rfl]
  rfl

/-- What starts with a bracket and an item is read as a list. -/
theorem value?_openBracket {fuel : Nat} {vs : List Json} (hblank : isBlank c = false)
    (hc : c ≠ ']') (h : items? fuel (c :: cs) = some (vs, rest)) :
    value? (fuel + 1) ('[' :: c :: cs) = some (list vs, rest) := by
  rw [value?, skip_cons rfl]
  simp [skip_cons hblank, hc, h]

theorem value?_openBrace {fuel : Nat} {fs : List (Name × Json)} (hblank : isBlank c = false)
    (hc : c ≠ '\x7d') (h : fields? fuel (c :: cs) = some (fs, rest)) :
    value? (fuel + 1) ('\x7b' :: c :: cs) = some (members fs, rest) := by
  rw [value?, skip_cons rfl]
  simp [skip_cons hblank, hc, h]

theorem items?_last {fuel : Nat} {v : Json} (h : value? fuel cs = some (v, ']' :: rest)) :
    items? (fuel + 1) cs = some ([v], rest) := by
  rw [items?, h]
  rfl

theorem items?_more {fuel : Nat} {v : Json} {vs : List Json} {more : List Char}
    (h : value? fuel cs = some (v, ',' :: more)) (hmore : items? fuel more = some (vs, rest)) :
    items? (fuel + 1) cs = some (v :: vs, rest) := by
  have hskip : skip (',' :: more) = ',' :: more := rfl
  simp only [items?, h, hskip, hmore]

theorem fields?_last {fuel : Nat} {name : Name} {v : Json} {after : List Char}
    (hname : readName? cs = some (name, ':' :: after))
    (hv : value? fuel after = some (v, '\x7d' :: rest)) :
    fields? (fuel + 1) ('"' :: cs) = some ([(name, v)], rest) := by
  have hquote : skip ('"' :: cs) = '"' :: cs := rfl
  have hcolon : skip (':' :: after) = ':' :: after := rfl
  have hskip : skip ('\x7d' :: rest) = '\x7d' :: rest := rfl
  simp only [fields?, hquote, hname, hcolon, hv, hskip]

theorem fields?_more {fuel : Nat} {name : Name} {v : Json} {fs : List (Name × Json)}
    {after more : List Char} (hname : readName? cs = some (name, ':' :: after))
    (hv : value? fuel after = some (v, ',' :: more)) (hmore : fields? fuel more = some (fs, rest)) :
    fields? (fuel + 1) ('"' :: cs) = some ((name, v) :: fs, rest) := by
  have hquote : skip ('"' :: cs) = '"' :: cs := rfl
  have hcolon : skip (':' :: after) = ':' :: after := rfl
  have hskip : skip (',' :: more) = ',' :: more := rfl
  simp only [fields?, hquote, hname, hcolon, hv, hskip, hmore]

/-! ## Values that are written -/

mutual

/-- Nothing in a value stands for a literal that no setting holds. -/
def IsPlain : Json → Prop
  | other _ => False
  | list items => ItemsArePlain items
  | members fields => FieldsArePlain fields
  | _ => True

/-- All items are plain. -/
def ItemsArePlain : List Json → Prop
  | [] => True
  | v :: rest => v.IsPlain ∧ ItemsArePlain rest

/-- All names are texts and all values plain. -/
def FieldsArePlain : List (Name × Json) → Prop
  | [] => True
  | (.text _, v) :: rest => v.IsPlain ∧ FieldsArePlain rest
  | (.other _, _) :: _ => False

end

theorem exists_chars_cons {j : Json} (h : j.IsPlain) :
    ∃ c cs, j.chars = c :: cs ∧ isBlank c = false ∧ c ≠ ']' := by
  cases j with
  | null => exact ⟨'n', _, rfl, rfl, by decide⟩
  | bool b => cases b <;> exact ⟨_, _, rfl, rfl, by decide⟩
  | natural n =>
    obtain ⟨c, cs, hdigits, hc⟩ := exists_toDigits_cons n
    exact ⟨c, cs, hdigits, isBlank_of_isDigit hc, ne_of_isDigit hc rfl⟩
  | text s => exact ⟨'"', _, rfl, rfl, by decide⟩
  | other s => exact h.elim
  | list items => cases items <;> exact ⟨'[', _, rfl, rfl, by decide⟩
  | members fields => rcases fields with _ | ⟨⟨_, _⟩, _⟩ <;> exact ⟨'\x7b', _, rfl, rfl, by decide⟩

theorem value?_toDigits (n fuel : Nat) (hrest : EndsNumber rest) :
    value? (fuel + 1) (Nat.toDigits 10 n ++ rest) = some (natural n, rest) := by
  obtain ⟨c, cs, hdigits, hc⟩ := exists_toDigits_cons n
  rw [← readNumber?_toDigits n hrest, hdigits]
  exact value?_of_isDigit hc fuel _

theorem endsNumber_itemChars (vs : List Json) (rest : List Char) :
    EndsNumber (itemChars vs ++ rest) := by
  cases vs <;> exact .cons rfl _

theorem endsNumber_memberChars (fs : List (Name × Json)) (rest : List Char) :
    EndsNumber (memberChars fs ++ rest) := by
  rcases fs with _ | ⟨⟨_, _⟩, _⟩ <;> exact .cons rfl _

mutual

/-- A plain value is read as it was written, whatever follows that cannot belong to a number. -/
theorem value?_chars {j : Json} (hj : j.IsPlain) {rest : List Char} (hrest : EndsNumber rest)
    {fuel : Nat} (hfuel : j.chars.length ≤ fuel) :
    value? fuel (j.chars ++ rest) = some (j, rest) := by
  obtain ⟨c, cs, hchars, -⟩ := exists_chars_cons hj
  obtain ⟨fuel, rfl⟩ : ∃ n, fuel = n + 1 := ⟨fuel - 1, by simp [hchars] at hfuel; omega⟩
  match j with
  | .null => rfl
  | .bool true => rfl
  | .bool false => rfl
  | .natural n => exact value?_toDigits n fuel hrest
  | .text s =>
    have h := readName?_writeText s rest
    simp [chars, writeText, value?_quote, readText?, h, ofName]
  | .other s => exact hj.elim
  | .list [] => rfl
  | .list (v :: items) =>
    obtain ⟨c, cs, hv, hblank, hc⟩ := exists_chars_cons hj.1
    have h : items? fuel (v.chars ++ itemChars items ++ rest) = some (v :: items, rest) :=
      items?_itemChars hj (v.chars ++ itemChars items) rfl (by simpa [chars] using hfuel) rest
    rw [hv, List.cons_append, List.cons_append] at h
    simp only [chars, hv, List.cons_append]
    exact value?_openBracket hblank hc h
  | .members [] => rfl
  | .members ((.text name, v) :: fields) =>
    have h : fields? fuel (writeText name ++ ':' :: v.chars ++ memberChars fields ++ rest) =
        some ((.text name, v) :: fields, rest) :=
      fields?_memberChars hj (writeText name ++ ':' :: v.chars ++ memberChars fields) rfl
        (by simpa [chars, nameChars] using hfuel) rest
    simp only [writeText, List.cons_append] at h
    simp only [chars, nameChars, writeText, List.cons_append]
    exact value?_openBrace rfl (by decide) h

theorem items?_itemChars {vs : List Json} (hvs : ItemsArePlain vs) (cs : List Char)
    (hcs : itemChars vs = ',' :: cs) {fuel : Nat} (hfuel : cs.length ≤ fuel) (rest : List Char) :
    items? fuel (cs ++ rest) = some (vs, rest) := by
  match vs with
  | [] => cases hcs
  | v :: items =>
    obtain rfl : v.chars ++ itemChars items = cs := (List.cons.inj hcs).2
    rw [List.length_append] at hfuel
    have hpos : 0 < (itemChars items).length := by cases items <;> exact Nat.succ_pos _
    obtain ⟨fuel, rfl⟩ : ∃ n, fuel = n + 1 := ⟨fuel - 1, by omega⟩
    have hv : value? fuel (v.chars ++ (itemChars items ++ rest)) =
        some (v, itemChars items ++ rest) :=
      value?_chars hvs.1 (endsNumber_itemChars items rest) (by omega)
    rw [List.append_assoc]
    match items with
    | [] => exact items?_last hv
    | w :: items =>
      have hlength : (itemChars (w :: items)).length =
          (w.chars ++ itemChars items).length + 1 := rfl
      have hrest : items? fuel (w.chars ++ itemChars items ++ rest) = some (w :: items, rest) :=
        items?_itemChars hvs.2 (w.chars ++ itemChars items) rfl (by omega) rest
      exact items?_more hv hrest

theorem fields?_memberChars {fs : List (Name × Json)} (hfs : FieldsArePlain fs) (cs : List Char)
    (hcs : memberChars fs = ',' :: cs) {fuel : Nat} (hfuel : cs.length ≤ fuel) (rest : List Char) :
    fields? fuel (cs ++ rest) = some (fs, rest) := by
  match fs with
  | [] => cases hcs
  | (.text name, v) :: fields =>
    obtain rfl : writeText name ++ ':' :: v.chars ++ memberChars fields = cs :=
      (List.cons.inj hcs).2
    have hname := readName?_writeText name (':' :: (v.chars ++ (memberChars fields ++ rest)))
    simp only [List.length_append, List.length_cons] at hfuel
    obtain ⟨fuel, rfl⟩ : ∃ n, fuel = n + 1 := ⟨fuel - 1, by omega⟩
    have hpos : 0 < (memberChars fields).length := by
      rcases fields with _ | ⟨⟨_, _⟩, _⟩ <;> exact Nat.succ_pos _
    have hv : value? fuel (v.chars ++ (memberChars fields ++ rest)) =
        some (v, memberChars fields ++ rest) :=
      value?_chars hfs.1 (endsNumber_memberChars fields rest) (by omega)
    simp only [writeText, List.cons_append, List.append_assoc, List.nil_append]
    match fields with
    | [] => exact fields?_last hname hv
    | (.text next, w) :: fields =>
      have hlength : (memberChars ((.text next, w) :: fields)).length =
          (writeText next ++ ':' :: w.chars ++ memberChars fields).length + 1 := rfl
      have hrest : fields? fuel (writeText next ++ ':' :: w.chars ++ memberChars fields ++ rest) =
          some ((.text next, w) :: fields, rest) :=
        fields?_memberChars hfs.2 (writeText next ++ ':' :: w.chars ++ memberChars fields) rfl
          (by omega) rest
      exact fields?_more hname hv hrest

end

/-- A plain value is read back from its text. -/
theorem read?_write {j : Json} (hj : j.IsPlain) : read? j.write = some j := by
  have h : value? (j.chars.length + 1) (j.chars ++ []) = some (j, []) :=
    value?_chars hj EndsNumber.nil (Nat.le_succ _)
  rw [List.append_nil] at h
  simp only [read?, write, String.toList_ofList, h]
  rfl

end Json

end RemoteEval.Config
