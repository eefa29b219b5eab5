import RemoteEval.Text.Utf8

/-!
# Decoding what was encoded

The octets of a character bring a decoder from between two characters back there, and it writes
that character (`decodeFrom_utf8EncodeChar`). So a text is read back from its octets
(`decode_encode`).
-/

namespace RemoteEval.Text

/-! ## Octets of a character -/

theorem toNat_later {n : Nat} (hn : n < 64) : (UInt8.ofNat (n + 0x80)).toNat = n + 0x80 := by
  have hsize : n + 0x80 < UInt8.size := by
    change n + 0x80 < 256
    omega
  exact UInt8.toNat_ofNat_of_lt' hsize

/-- A later octet of a character, in the range that is expected. -/
theorem Decoder.step_inside {later code n : Nat} {low high : UInt8} (hn : n < 64)
    (hlow : low.toNat ≤ n + 0x80) (hhigh : n + 0x80 ≤ high.toNat) :
    Decoder.step (.inside later low high code) (UInt8.ofNat (n + 0x80)) =
      match later with
      | 0 => ([Char.ofNat (code * 64 + n)], .between)
      | later + 1 => ([], .inside later 0x80 0xBF (code * 64 + n)) := by
  have hb := toNat_later hn
  generalize UInt8.ofNat (n + 0x80) = b at hb
  have hcode : code * 64 + (b.toNat - 0x80) = code * 64 + n := by omega
  have hrange : (low ≤ b && b ≤ high) = true := by
    simp [UInt8.le_iff_toNat_le, hb, hlow, hhigh]
  cases later <;> simp only [Decoder.step, hrange, if_true, hcode]

theorem Decoder.step_inside_wide {later code n : Nat} (hn : n < 64) :
    Decoder.step (.inside later 0x80 0xBF code) (UInt8.ofNat (n + 0x80)) =
      match later with
      | 0 => ([Char.ofNat (code * 64 + n)], .between)
      | later + 1 => ([], .inside later 0x80 0xBF (code * 64 + n)) :=
  Decoder.step_inside hn (by simp) (by simp; omega)

theorem Decoder.start_one {n : Nat} (hn : n < 128) :
    Decoder.start (UInt8.ofNat n) = ([Char.ofNat n], .between) := by
  have hb : (UInt8.ofNat n).toNat = n := UInt8.toNat_ofNat_of_lt' (Nat.lt_trans hn (by decide))
  simp [Decoder.start, UInt8.lt_iff_toNat_lt, hb, hn]

theorem Decoder.start_two : ∀ n < 32, 2 ≤ n →
    Decoder.start (UInt8.ofNat (n + 0xC0)) = ([], .inside 0 0x80 0xBF n) := by
  decide

/-- The octets between which the second of three lies, by the bits of the first. -/
def rangeOfThree (n : Nat) : UInt8 × UInt8 :=
  if n = 0 then (0xA0, 0xBF) else if n = 0xD then (0x80, 0x9F) else (0x80, 0xBF)

theorem Decoder.start_three : ∀ n < 16, Decoder.start (UInt8.ofNat (n + 0xE0)) =
    ([], .inside 1 (rangeOfThree n).1 (rangeOfThree n).2 n) := by
  decide

theorem within_rangeOfThree {n m : Nat} (hm : m < 64) (hlow : n = 0 → 32 ≤ m)
    (hhigh : n = 0xD → m < 32) :
    (rangeOfThree n).1.toNat ≤ m + 0x80 ∧ m + 0x80 ≤ (rangeOfThree n).2.toNat := by
  unfold rangeOfThree
  split
  · simp
    omega
  split <;>
  · simp
    omega

/-- The octets between which the second of four lies, by the bits of the first. -/
def rangeOfFour (n : Nat) : UInt8 × UInt8 :=
  if n = 0 then (0x90, 0xBF) else if n = 4 then (0x80, 0x8F) else (0x80, 0xBF)

theorem Decoder.start_four : ∀ n < 5, Decoder.start (UInt8.ofNat (n + 0xF0)) =
    ([], .inside 2 (rangeOfFour n).1 (rangeOfFour n).2 n) := by
  decide

theorem within_rangeOfFour {n m : Nat} (hm : m < 64) (hlow : n = 0 → 16 ≤ m)
    (hhigh : n = 4 → m < 16) :
    (rangeOfFour n).1.toNat ≤ m + 0x80 ∧ m + 0x80 ≤ (rangeOfFour n).2.toNat := by
  unfold rangeOfFour
  split
  · simp
    omega
  split <;>
  · simp
    omega

/-! ## Characters -/

/-- The octets of a character bring a decoder back between characters. -/
theorem decodeFrom_utf8EncodeChar (c : Char) (bs : List UInt8) :
    decodeFrom .between (String.utf8EncodeChar c ++ bs) = c :: decodeFrom .between bs := by
  have hvalid : c.val.toNat < 0xD800 ∨ 0xDFFF < c.val.toNat ∧ c.val.toNat < 0x110000 := c.valid
  have hchar : Char.ofNat c.val.toNat = c := Char.ofNat_toNat c
  unfold String.utf8EncodeChar
  simp only
  generalize c.val.toNat = v at hvalid hchar
  split
  · simp [decodeFrom, Decoder.step, Decoder.start_one (show v < 128 by omega), hchar]
  split
  · have hcode : v / 64 % 32 * 64 + v % 64 = v := by omega
    have hfirst := Decoder.start_two (v / 64 % 32) (by omega) (by omega)
    simp only [List.cons_append, List.nil_append, decodeFrom,
      show Decoder.step .between _ = _ from hfirst,
      Decoder.step_inside_wide (n := v % 64) (by omega), hcode, hchar]
  split
  · have hcode : (v / 4096 % 16 * 64 + v / 64 % 64) * 64 + v % 64 = v := by omega
    have hfirst := Decoder.start_three (v / 4096 % 16) (by omega)
    have hsecond := within_rangeOfThree (n := v / 4096 % 16) (m := v / 64 % 64) (by omega)
      (by omega) (by omega)
    simp only [List.cons_append, List.nil_append, decodeFrom,
      show Decoder.step .between _ = _ from hfirst,
      Decoder.step_inside (n := v / 64 % 64) (by omega) hsecond.1 hsecond.2,
      Decoder.step_inside_wide (n := v % 64) (by omega), hcode, hchar]
  · have hcode : ((v / 262144 % 8 * 64 + v / 4096 % 64) * 64 + v / 64 % 64) * 64 + v % 64 = v := by
      omega
    have hfirst := Decoder.start_four (v / 262144 % 8) (by omega)
    have hsecond := within_rangeOfFour (n := v / 262144 % 8) (m := v / 4096 % 64) (by omega)
      (by omega) (by omega)
    simp only [List.cons_append, List.nil_append, decodeFrom,
      show Decoder.step .between _ = _ from hfirst,
      Decoder.step_inside (n := v / 4096 % 64) (by omega) hsecond.1 hsecond.2,
      Decoder.step_inside_wide (n := v / 64 % 64) (by omega),
      Decoder.step_inside_wide (n := v % 64) (by omega), hcode, hchar]

theorem decode_encode (s : String) : decode (encode s) = s := by
  have hchars (cs : List Char) :
      decodeFrom .between (cs.flatMap String.utf8EncodeChar) = cs := by
    induction cs with
    | nil => rfl
    | cons c cs ih => rw [List.flatMap_cons, decodeFrom_utf8EncodeChar, ih]
  rw [decode, encode, hchars, String.ofList_toList]

theorem encode_eq_nil_iff {s : String} : encode s = [] ↔ s = "" := by
  rw [encode, List.flatMap_eq_nil_iff]
  constructor
  · intro h
    cases hs : s.toList with
    | nil => simpa using hs
    | cons c cs => exact (String.utf8EncodeChar_ne_nil (h c (by simp [hs]))).elim
  · rintro rfl
    simp

end RemoteEval.Text
