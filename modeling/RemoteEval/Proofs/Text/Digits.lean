/-!
# Digits of numbers

What holds of the numbers of one digit, and of a number if it holds of the number without its last
digit, holds of all (`digits_induction`). A number is written with at least one digit, and with
nothing else (`exists_toDigits_cons`, `isDigit_of_mem_toDigits`). A number other than zero is
written with a first digit that is not zero (`exists_leading_digit`).
-/

namespace RemoteEval.Text

variable {b n : Nat}

theorem digits_induction {P : Nat → Prop} (hb : 1 < b) (single : ∀ n < b, P n)
    (more : ∀ n, b ≤ n → P (n / b) → P n) (n : Nat) : P n := by
  induction n using Nat.strongRecOn with
  | ind n ih =>
    by_cases h : n < b
    · exact single n h
    · rw [Nat.not_lt] at h
      exact more n h (ih _ (Nat.div_lt_self (by omega) hb))

/-! ## Decimal digits -/

theorem isDigit_of_mem_toDigits {c : Char} (h : c ∈ Nat.toDigits 10 n) : c.isDigit = true :=
  Nat.isDigit_of_mem_toDigits (by decide) (by decide) h

theorem exists_toDigits_cons (n : Nat) :
    ∃ d ds, Nat.toDigits 10 n = d :: ds ∧ d.isDigit = true := by
  obtain ⟨d, ds, hdigits⟩ := List.exists_cons_of_ne_nil (Nat.toDigits_ne_nil (b := 10) (n := n))
  exact ⟨d, ds, hdigits, isDigit_of_mem_toDigits (n := n) (by simp [hdigits])⟩

/-! ## The first digit -/

/-- A number other than zero starts with a digit other than zero. -/
theorem exists_leading_digit (hb : 1 < b) (hn : 0 < n) :
    ∃ d ds, 0 < d ∧ d < b ∧ Nat.toDigits b n = d.digitChar :: ds := by
  induction n using digits_induction hb with
  | single n h => exact ⟨n, [], hn, h, Nat.toDigits_of_lt_base h⟩
  | more n h ih =>
    obtain ⟨d, ds, hd, hdb, hdigits⟩ := ih (Nat.div_pos h (by omega))
    refine ⟨d, ds ++ [(n % b).digitChar], hd, hdb, ?_⟩
    rw [Nat.toDigits_of_base_le hb h, hdigits, List.cons_append]

end RemoteEval.Text
