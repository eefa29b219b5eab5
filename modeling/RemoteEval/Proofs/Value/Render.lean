import Mathlib.Data.List.Basic
import RemoteEval.Proofs.Script.Values
import RemoteEval.Proofs.Text.Digits
import RemoteEval.Proofs.Value.Strokes

/-!
# What a value shows first

The first character of a value is that of the first stroke it is written with. A value that a script
can build shows as text of which either the first character is no control character or there is no
other (`Value.Scripted.text_opens`).
-/

namespace RemoteEval

/-- A text starts with a character that is no control character. -/
def Text.Opens : List Char → Prop
  | [] => False
  | c :: _ => ' ' ≤ c

instance (cs : List Char) : Decidable (Text.Opens cs) :=
  match cs with
  | [] => inferInstanceAs (Decidable False)
  | c :: _ => inferInstanceAs (Decidable (' ' ≤ c))

theorem Text.Opens.cons {c : Char} {rest : List Char} (hc : ' ' ≤ c) : Opens (c :: rest) :=
  hc

theorem Text.Opens.append {cs : List Char} (h : Opens cs) (ds : List Char) : Opens (cs ++ ds) := by
  cases cs with
  | nil => exact h.elim
  | cons c rest => exact h

/-! ## Written numbers -/

namespace Number

theorem space_le_of_isDigit {c : Char} (h : c.isDigit = true) : ' ' ≤ c := by
  simp only [Char.isDigit, Bool.and_eq_true, decide_eq_true_eq] at h
  exact Char.le_trans (by decide) h.1

theorem opens_of_isDigit {digits : List Char} (hne : digits ≠ [])
    (hd : ∀ c ∈ digits, c.isDigit = true) : Text.Opens digits := by
  obtain ⟨c, rest, rfl⟩ := List.exists_cons_of_ne_nil hne
  exact space_le_of_isDigit (hd c List.mem_cons_self)

theorem opens_int (i : Int) : Text.Opens (toString i).toList := by
  rw [Int.toString_eq_repr]
  cases i with
  | ofNat n =>
    rw [Int.repr, Nat.toList_repr]
    exact opens_of_isDigit Nat.toDigits_ne_nil fun _ => Text.isDigit_of_mem_toDigits
  | negSucc n =>
    rw [Int.repr, String.toList_append]
    exact Text.Opens.append (by decide) _

theorem isDigit_of_mem_significant {digits : List Char}
    (h : ∀ c ∈ digits, c.isDigit = true) : ∀ c ∈ significant digits, c.isDigit = true := by
  intro c hc
  unfold significant at hc
  split at hc
  · obtain rfl : c = '0' := by simpa using hc
    decide
  · exact h c (List.mem_reverse.1 ((List.dropWhile_sublist _).mem (List.mem_reverse.1 hc)))

theorem significant_ne_nil (digits : List Char) : significant digits ≠ [] := by
  unfold significant
  split
  · simp
  · assumption

theorem opens_positionalText {digits : List Char} (h : Text.Opens digits) (whole : Int)
    (wholeTail : List Char) : Text.Opens (positionalText digits whole wholeTail) := by
  unfold positionalText
  split
  · exact .cons (c := '0') (by decide)
  split
  · exact (h.append _).append _
  · next hpos _ =>
    obtain ⟨n, hn⟩ : ∃ n, whole.toNat = n + 1 := ⟨whole.toNat - 1, by omega⟩
    cases digits with
    | nil => exact h.elim
    | cons c rest =>
      rw [hn]
      exact h

theorem opens_plain (x : Float) : Text.Opens (Layout.plain.text x).toList := by
  have hmagnitude (m : Magnitude) : Text.Opens (Layout.plain.magnitudeText m) := by
    simp only [Layout.magnitudeText, Layout.plain, Bool.or_true, if_true, Decimal.spread]
    exact opens_positionalText (opens_of_isDigit (significant_ne_nil _)
      (isDigit_of_mem_significant fun _ => Text.isDigit_of_mem_toDigits)) _ _
  unfold Layout.text
  split
  · decide
  · decide
  · decide
  · rw [String.toList_ofList]
    exact hmagnitude _
  · rw [String.toList_ofList]
    exact .cons (c := '-') (by decide)

end Number

/-! ## Values -/

namespace Value

open Stroke

theorem opens_write {s : String} (h : Text.Opens s.toList) (strokes : List Stroke) :
    Text.Opens (Stroke.text (write s :: strokes)).toList := by
  rw [text_write, String.toList_append]
  exact h.append _

theorem opens_kind (v : Value) : Text.Opens v.kind.toList := by
  cases v <;> (rw [kind]; decide)

/-- A value that a script can build shows as text that is a single character, or that starts with
one that is no control character. -/
theorem Scripted.text_opens {v : Value} (hv : v.Scripted) :
    Text.Opens v.text.toList ∨ ∃ c, v.text.toList = [c] := by
  rw [text_eq]
  cases hv with
  | null => exact .inl (opens_write (by decide) _)
  | bool b => cases b <;> exact .inl (opens_write (by decide) _)
  | int i => exact .inl (opens_write (Number.opens_int _) _)
  | float x => exact .inl (opens_write (Number.opens_plain x) _)
  | str s => exact .inl (opens_write (by decide) _)
  | char c => exact .inr ⟨c, by simp [strokes]⟩
  | array _ => exact .inl (opens_write (by decide) _)
  | map _ _ => exact .inl (opens_write (by decide) _)
  | range identity start stop => exact .inl (opens_write (by decide) _)
  | kind v => exact .inl (opens_write (opens_kind v) _)

end Value

end RemoteEval
