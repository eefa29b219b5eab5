import RemoteEval.Proofs.Text.Utf8
import RemoteEval.Text.Lossy

/-!
# What octets are decoded to

A decoder that stands inside a character has read octets that a character begins with, and what it
expects next is what goes on with one (`Decoder.Stands`). So it finds a character where one stands,
and where none does it drops the longest run with which one begins : the text that it writes is what
the octets read as (`reads_iff`). Octets that read as a text without replacements are its encoding
(`Reads.encode_eq`).
-/

namespace RemoteEval.Text

/-! ## The octets of a character -/

/-- The octets with which a character goes on : the next lies between two bounds, and `later` follow
it. -/
inductive Completing : (later : Nat) → (low high : UInt8) → List UInt8 → Prop
  | last {low high b : UInt8} (h : low ≤ b ∧ b ≤ high) : Completing 0 low high [b]
  | more {later : Nat} {low high b : UInt8} {tail : List UInt8} (h : low ≤ b ∧ b ≤ high)
      (htail : Completing later 0x80 0xBF tail) : Completing (later + 1) low high (b :: tail)

/-- The code point whose first bits are `code` and whose other bits are in some octets. -/
def codePoint (code : Nat) (tail : List UInt8) : Nat :=
  tail.foldl (fun code b => code * 64 + (b.toNat - 0x80)) code

/-- The octets of a code point, as a decoder expects them. -/
inductive Spells : List UInt8 → Nat → Prop
  | alone {b : UInt8} (hb : b < 0x80) : Spells [b] b.toNat
  | behind {b low high : UInt8} {later code : Nat} {tail : List UInt8}
      (hb : Decoder.start b = ([], .inside later low high code))
      (htail : Completing later low high tail) : Spells (b :: tail) (codePoint code tail)

theorem exists_completing {low high : UInt8} (h : low ≤ high) (later : Nat) :
    ∃ tail, Completing later low high tail := by
  induction later generalizing low high with
  | zero => exact ⟨[low], .last ⟨UInt8.le_refl low, h⟩⟩
  | succ later ih =>
    obtain ⟨tail, htail⟩ := ih (show (0x80 : UInt8) ≤ 0xBF by decide)
    exact ⟨low :: tail, .more ⟨UInt8.le_refl low, h⟩ htail⟩

theorem Completing.of_zero {low high : UInt8} {tail : List UInt8}
    (h : Completing 0 low high tail) : ∃ b, (low ≤ b ∧ b ≤ high) ∧ tail = [b] := by
  cases h with
  | last h => exact ⟨_, h, rfl⟩

theorem Completing.of_succ {later : Nat} {low high : UInt8} {tail : List UInt8}
    (h : Completing (later + 1) low high tail) :
    ∃ b rest, (low ≤ b ∧ b ≤ high) ∧ Completing later 0x80 0xBF rest ∧ tail = b :: rest := by
  cases h with
  | more h htail => exact ⟨_, _, h, htail, rfl⟩

theorem codePoint_cons (code : Nat) (b : UInt8) (tail : List UInt8) :
    codePoint code (b :: tail) = codePoint (code * 64 + (b.toNat - 0x80)) tail := by
  rw [codePoint, List.foldl_cons, codePoint]

/-! ### With the bits of each octet -/

theorem codePoint_cons_later {code n : Nat} (hn : n < 64) (tail : List UInt8) :
    codePoint code (UInt8.ofNat (n + 0x80) :: tail) = codePoint (code * 64 + n) tail := by
  rw [codePoint_cons, toNat_later hn, Nat.add_sub_cancel]

theorem exists_later {b : UInt8} (h : 0x80 ≤ b.toNat ∧ b.toNat ≤ 0xBF) :
    ∃ n < 64, b = UInt8.ofNat (n + 0x80) :=
  ⟨b.toNat - 0x80, by omega, by rw [Nat.sub_add_cancel h.1, UInt8.ofNat_toNat]⟩

theorem within_later {n : Nat} {low high : UInt8} (hn : n < 64)
    (h : low.toNat ≤ n + 0x80 ∧ n + 0x80 ≤ high.toNat) :
    low ≤ UInt8.ofNat (n + 0x80) ∧ UInt8.ofNat (n + 0x80) ≤ high := by
  rwa [UInt8.le_iff_toNat_le, UInt8.le_iff_toNat_le, toNat_later hn]

theorem within_wide {n : Nat} (hn : n < 64) :
    (0x80 : UInt8) ≤ UInt8.ofNat (n + 0x80) ∧ UInt8.ofNat (n + 0x80) ≤ 0xBF :=
  within_later hn ⟨Nat.le_add_left _ _, Nat.add_le_add_right (Nat.le_of_lt_succ hn) 0x80⟩

theorem Spells.one {n : Nat} (hn : n < 128) : Spells [UInt8.ofNat n] n := by
  have hb : (UInt8.ofNat n).toNat = n := UInt8.toNat_ofNat_of_lt' (Nat.lt_trans hn (by decide))
  have h := Spells.alone (b := UInt8.ofNat n) (UInt8.lt_iff_toNat_lt.2 (by rw [hb]; exact hn))
  rwa [hb] at h

theorem Spells.two {m n : Nat} (hm : m < 32) (hlow : 2 ≤ m) (hn : n < 64) :
    Spells [UInt8.ofNat (m + 0xC0), UInt8.ofNat (n + 0x80)] (m * 64 + n) := by
  have h := Spells.behind (Decoder.start_two m hm hlow) (.last (within_wide hn))
  rwa [codePoint_cons_later hn] at h

theorem Spells.three {l m n : Nat} (hl : l < 16) (hm : m < 64) (hn : n < 64)
    (hlow : l = 0 → 32 ≤ m) (hhigh : l = 0xD → m < 32) :
    Spells [UInt8.ofNat (l + 0xE0), UInt8.ofNat (m + 0x80), UInt8.ofNat (n + 0x80)]
      ((l * 64 + m) * 64 + n) := by
  have hrange := within_later hm (within_rangeOfThree hm hlow hhigh)
  have h := Spells.behind (Decoder.start_three l hl) (.more hrange (.last (within_wide hn)))
  rwa [codePoint_cons_later hm, codePoint_cons_later hn] at h

theorem Spells.four {k l m n : Nat} (hk : k < 5) (hl : l < 64) (hm : m < 64) (hn : n < 64)
    (hlow : k = 0 → 16 ≤ l) (hhigh : k = 4 → l < 16) :
    Spells [UInt8.ofNat (k + 0xF0), UInt8.ofNat (l + 0x80), UInt8.ofNat (m + 0x80),
      UInt8.ofNat (n + 0x80)] (((k * 64 + l) * 64 + m) * 64 + n) := by
  have hrange := within_later hl (within_rangeOfFour hl hlow hhigh)
  have h := Spells.behind (Decoder.start_four k hk)
    (.more hrange (.more (within_wide hm) (.last (within_wide hn))))
  rwa [codePoint_cons_later hl, codePoint_cons_later hm, codePoint_cons_later hn] at h

/-- What a decoder expects of a character is its encoding. -/
theorem spells_utf8EncodeChar (c : Char) : Spells (String.utf8EncodeChar c) c.toNat := by
  have hvalid : c.val.toNat < 0xD800 ∨ 0xDFFF < c.val.toNat ∧ c.val.toNat < 0x110000 := c.valid
  show Spells _ c.val.toNat
  unfold String.utf8EncodeChar
  simp only
  generalize c.val.toNat = v at hvalid
  split
  · exact .one (by omega)
  split
  · have h := Spells.two (m := v / 64 % 32) (n := v % 64) (by omega) (by omega) (by omega)
    rwa [show v / 64 % 32 * 64 + v % 64 = v by omega] at h
  split
  · have h := Spells.three (l := v / 4096 % 16) (m := v / 64 % 64) (n := v % 64) (by omega)
      (by omega) (by omega) (by omega) (by omega)
    rwa [show (v / 4096 % 16 * 64 + v / 64 % 64) * 64 + v % 64 = v by omega] at h
  · have h := Spells.four (k := v / 262144 % 8) (l := v / 4096 % 64) (m := v / 64 % 64)
      (n := v % 64) (by omega) (by omega) (by omega) (by omega) (by omega) (by omega)
    rwa [show ((v / 262144 % 8 * 64 + v / 4096 % 64) * 64 + v / 64 % 64) * 64 + v % 64 = v by
      omega] at h

/-! ### From the octets to the character -/

/-- An octet with which no character begins. -/
def IsStray (b : UInt8) : Prop :=
  0x80 ≤ b.toNat ∧ b.toNat < 0xC2 ∨ 0xF5 ≤ b.toNat

theorem IsStray.start {b : UInt8} (h : IsStray b) :
    Decoder.start b = ([replacement], .between) := by
  unfold Decoder.start
  simp only [UInt8.lt_iff_toNat_lt, beq_iff_eq, ← UInt8.toNat_inj, UInt8.reduceToNat]
  rcases h with h | h
  · rw [if_neg (by omega), if_pos (by omega)]
  · rw [if_neg (by omega), if_neg (by omega), if_neg (by omega), if_neg (by omega),
      if_neg (by omega), if_neg (by omega), if_neg (by omega), if_neg (by omega), if_neg (by omega)]

/-- The octets with which a character begins, and those with which none does. -/
theorem Decoder.start_cases (b : UInt8) :
    b < 0x80 ∨ (∃ n, b = UInt8.ofNat (n + 0xC0) ∧ n < 32 ∧ 2 ≤ n) ∨
      (∃ n, b = UInt8.ofNat (n + 0xE0) ∧ n < 16) ∨ (∃ n, b = UInt8.ofNat (n + 0xF0) ∧ n < 5) ∨
      IsStray b := by
  have hb : UInt8.ofNat b.toNat = b := UInt8.ofNat_toNat
  rw [UInt8.lt_iff_toNat_lt]
  by_cases h1 : b.toNat < 0x80
  · exact .inl h1
  by_cases hstray : IsStray b
  · exact .inr (.inr (.inr (.inr hstray)))
  unfold IsStray at hstray
  by_cases h2 : b.toNat < 0xE0
  · exact .inr (.inl ⟨b.toNat - 0xC0, by rw [Nat.sub_add_cancel (by omega), hb], by omega,
      by omega⟩)
  by_cases h3 : b.toNat < 0xF0
  · exact .inr (.inr (.inl ⟨b.toNat - 0xE0, by rw [Nat.sub_add_cancel (by omega), hb], by omega⟩))
  · exact .inr (.inr (.inr (.inl ⟨b.toNat - 0xF0, by rw [Nat.sub_add_cancel (by omega), hb],
      by omega⟩)))

theorem val_ofNat {v : Nat} (h : v.isValidChar) : (Char.ofNat v).val.toNat = v := by
  rw [Char.ofNat, dif_pos h]
  rfl

theorem utf8EncodeChar_two {m n : Nat} (hm : m < 32) (hlow : 2 ≤ m) (hn : n < 64) :
    String.utf8EncodeChar (Char.ofNat (m * 64 + n)) =
      [UInt8.ofNat (m + 0xC0), UInt8.ofNat (n + 0x80)] := by
  have hv := val_ofNat (v := m * 64 + n) (.inl (by omega))
  have h1 : (m * 64 + n) / 64 % 32 = m := by omega
  have h2 : (m * 64 + n) % 64 = n := by omega
  simp only [String.utf8EncodeChar, hv]
  rw [if_neg (by omega), if_pos (by omega), h1, h2]

theorem utf8EncodeChar_three {l m n : Nat} (hl : l < 16) (hm : m < 64) (hn : n < 64)
    (hlow : l = 0 → 32 ≤ m) (hhigh : l = 0xD → m < 32) :
    String.utf8EncodeChar (Char.ofNat ((l * 64 + m) * 64 + n)) =
      [UInt8.ofNat (l + 0xE0), UInt8.ofNat (m + 0x80), UInt8.ofNat (n + 0x80)] := by
  have hv := val_ofNat (v := (l * 64 + m) * 64 + n) (by unfold Nat.isValidChar; omega)
  have h1 : ((l * 64 + m) * 64 + n) / 4096 % 16 = l := by omega
  have h2 : ((l * 64 + m) * 64 + n) / 64 % 64 = m := by omega
  have h3 : ((l * 64 + m) * 64 + n) % 64 = n := by omega
  simp only [String.utf8EncodeChar, hv]
  rw [if_neg (by omega), if_neg (by omega), if_pos (by omega), h1, h2, h3]

theorem utf8EncodeChar_four {k l m n : Nat} (hk : k < 5) (hl : l < 64) (hm : m < 64) (hn : n < 64)
    (hlow : k = 0 → 16 ≤ l) (hhigh : k = 4 → l < 16) :
    String.utf8EncodeChar (Char.ofNat (((k * 64 + l) * 64 + m) * 64 + n)) =
      [UInt8.ofNat (k + 0xF0), UInt8.ofNat (l + 0x80), UInt8.ofNat (m + 0x80),
        UInt8.ofNat (n + 0x80)] := by
  have hv := val_ofNat (v := ((k * 64 + l) * 64 + m) * 64 + n) (.inr (by omega))
  have h1 : (((k * 64 + l) * 64 + m) * 64 + n) / 262144 % 8 = k := by omega
  have h2 : (((k * 64 + l) * 64 + m) * 64 + n) / 4096 % 64 = l := by omega
  have h3 : (((k * 64 + l) * 64 + m) * 64 + n) / 64 % 64 = m := by omega
  have h4 : (((k * 64 + l) * 64 + m) * 64 + n) % 64 = n := by omega
  simp only [String.utf8EncodeChar, hv]
  rw [if_neg (by omega), if_neg (by omega), if_neg (by omega), h1, h2, h3, h4]

theorem of_within_rangeOfThree {n : Nat} {b : UInt8}
    (h : (rangeOfThree n).1 ≤ b ∧ b ≤ (rangeOfThree n).2) :
    ∃ m < 64, b = UInt8.ofNat (m + 0x80) ∧ (n = 0 → 32 ≤ m) ∧ (n = 0xD → m < 32) := by
  rw [UInt8.le_iff_toNat_le, UInt8.le_iff_toNat_le] at h
  have hbounds : (0x80 ≤ b.toNat ∧ b.toNat ≤ 0xBF) ∧ (n = 0 → 0xA0 ≤ b.toNat) ∧
      (n = 0xD → b.toNat ≤ 0x9F) := by
    by_cases h0 : n = 0
    · simp [rangeOfThree, h0] at h
      omega
    by_cases h13 : n = 0xD <;>
    · simp [rangeOfThree, h0, h13] at h
      omega
  obtain ⟨m, hm, rfl⟩ := exists_later hbounds.1
  rw [toNat_later hm] at hbounds
  exact ⟨m, hm, rfl, by omega, by omega⟩

theorem of_within_rangeOfFour {n : Nat} {b : UInt8}
    (h : (rangeOfFour n).1 ≤ b ∧ b ≤ (rangeOfFour n).2) :
    ∃ m < 64, b = UInt8.ofNat (m + 0x80) ∧ (n = 0 → 16 ≤ m) ∧ (n = 4 → m < 16) := by
  rw [UInt8.le_iff_toNat_le, UInt8.le_iff_toNat_le] at h
  have hbounds : (0x80 ≤ b.toNat ∧ b.toNat ≤ 0xBF) ∧ (n = 0 → 0x90 ≤ b.toNat) ∧
      (n = 4 → b.toNat ≤ 0x8F) := by
    by_cases h0 : n = 0
    · simp [rangeOfFour, h0] at h
      omega
    by_cases h4 : n = 4 <;>
    · simp [rangeOfFour, h0, h4] at h
      omega
  obtain ⟨m, hm, rfl⟩ := exists_later hbounds.1
  rw [toNat_later hm] at hbounds
  exact ⟨m, hm, rfl, by omega, by omega⟩

/-- What a decoder takes for a character is its encoding. -/
theorem Spells.utf8EncodeChar_eq {bs : List UInt8} {v : Nat} (h : Spells bs v) :
    String.utf8EncodeChar (Char.ofNat v) = bs := by
  cases h with
  | @alone b hb =>
    have hb' : b.toNat < 0x80 := hb
    rw [String.utf8EncodeChar, val_ofNat (.inl (by omega)), if_pos (by omega), UInt8.ofNat_toNat]
  | @behind b low high later code tail hstart htail =>
    rcases Decoder.start_cases b with hb | ⟨n, rfl, hn, hlow⟩ | ⟨n, rfl, hn⟩ | ⟨n, rfl, hn⟩ | hb
    · simp [Decoder.start, hb] at hstart
    · rw [Decoder.start_two n hn hlow] at hstart
      cases hstart
      obtain ⟨x, hx, rfl⟩ := htail.of_zero
      obtain ⟨m, hm, rfl⟩ := exists_later hx
      rw [codePoint_cons_later hm]
      exact utf8EncodeChar_two hn hlow hm
    · rw [Decoder.start_three n hn] at hstart
      cases hstart
      obtain ⟨x, tail, hx, hrest, rfl⟩ := htail.of_succ
      obtain ⟨y, hy, rfl⟩ := hrest.of_zero
      obtain ⟨m, hm, rfl, hlow, hhigh⟩ := of_within_rangeOfThree hx
      obtain ⟨k, hk, rfl⟩ := exists_later hy
      rw [codePoint_cons_later hm, codePoint_cons_later hk]
      exact utf8EncodeChar_three hn hm hk hlow hhigh
    · rw [Decoder.start_four n hn] at hstart
      cases hstart
      obtain ⟨x, tail, hx, hrest, rfl⟩ := htail.of_succ
      obtain ⟨y, tail, hy, hlast, rfl⟩ := hrest.of_succ
      obtain ⟨z, hz, rfl⟩ := hlast.of_zero
      obtain ⟨m, hm, rfl, hlow, hhigh⟩ := of_within_rangeOfFour hx
      obtain ⟨k, hk, rfl⟩ := exists_later hy
      obtain ⟨l, hl, rfl⟩ := exists_later hz
      rw [codePoint_cons_later hm, codePoint_cons_later hk, codePoint_cons_later hl]
      exact utf8EncodeChar_four hn hm hk hl hlow hhigh
    · rw [hb.start] at hstart
      cases hstart

/-! ## Where a character begins -/

theorem beginsCharacter_iff {run : List UInt8} :
    BeginsCharacter run ↔ ∃ tail v, Spells (run ++ tail) v := by
  constructor
  · rintro ⟨c, tail, htail⟩
    exact ⟨tail, c.toNat, htail ▸ spells_utf8EncodeChar c⟩
  · rintro ⟨tail, v, h⟩
    exact ⟨Char.ofNat v, tail, h.utf8EncodeChar_eq.symm⟩

/-- The encodings of two characters in front of some octets tell them apart. -/
theorem utf8EncodeChar_append_inj {c c' : Char} {bs bs' : List UInt8}
    (h : String.utf8EncodeChar c ++ bs = String.utf8EncodeChar c' ++ bs') : c = c' ∧ bs = bs' := by
  have hdecode := congrArg (decodeFrom .between) h
  rw [decodeFrom_utf8EncodeChar, decodeFrom_utf8EncodeChar] at hdecode
  obtain rfl := (List.cons.inj hdecode).1
  exact ⟨rfl, List.append_cancel_left h⟩

/-- A decoder stands inside a character of which it has read a run of octets. -/
structure Decoder.Stands (run : List UInt8) (later : Nat) (low high : UInt8) (code : Nat) :
    Prop where
  /-- It has read some octets. -/
  ne_nil : run ≠ []
  /-- It expects some octet. -/
  low_le_high : low ≤ high
  /-- What it expects completes a character, and nothing else does. -/
  spells_iff : ∀ tail v,
    Spells (run ++ tail) v ↔ Completing later low high tail ∧ codePoint code tail = v

variable {run rest : List UInt8} {later code : Nat} {low high : UInt8}

theorem Decoder.Stands.beginsCharacter (h : Stands run later low high code) :
    BeginsCharacter run := by
  obtain ⟨tail, htail⟩ := exists_completing h.low_le_high later
  exact beginsCharacter_iff.2 ⟨tail, _, (h.spells_iff tail _).2 ⟨htail, rfl⟩⟩

theorem Decoder.low_le_high_of_start {b : UInt8}
    (h : Decoder.start b = ([], .inside later low high code)) : low ≤ high := by
  unfold Decoder.start at h
  repeat' split at h
  all_goals cases h
  all_goals decide

theorem Decoder.Stands.of_start {b : UInt8}
    (h : Decoder.start b = ([], .inside later low high code)) :
    Stands [b] later low high code := by
  refine ⟨List.cons_ne_nil b [], low_le_high_of_start h, fun tail v => ⟨fun hv => ?_, ?_⟩⟩
  · cases hv with
    | alone hb => simp [Decoder.start, hb] at h
    | behind hb htail =>
      rw [h] at hb
      cases hb
      exact ⟨htail, rfl⟩
  · rintro ⟨htail, rfl⟩
    exact .behind h htail

/-- A decoder that reads an octet it expects, and not the last, goes on standing inside. -/
theorem Decoder.Stands.next (h : Stands run (later + 1) low high code) {b : UInt8}
    (hb : low ≤ b ∧ b ≤ high) :
    Stands (run ++ [b]) later 0x80 0xBF (code * 64 + (b.toNat - 0x80)) := by
  refine ⟨List.append_ne_nil_of_left_ne_nil h.ne_nil [b], by decide, fun tail v => ?_⟩
  rw [List.append_assoc, List.singleton_append, h.spells_iff, codePoint_cons]
  refine and_congr_left fun _ => ⟨fun htail => ?_, .more hb⟩
  obtain ⟨b', rest, -, hrest, heq⟩ := htail.of_succ
  exact (List.cons.inj heq).2 ▸ hrest

/-- A decoder that reads the last octet it expects has read a character. -/
theorem Decoder.Stands.last (h : Stands run 0 low high code) {b : UInt8}
    (hb : low ≤ b ∧ b ≤ high) :
    String.utf8EncodeChar (Char.ofNat (code * 64 + (b.toNat - 0x80))) = run ++ [b] :=
  Spells.utf8EncodeChar_eq ((h.spells_iff [b] _).2 ⟨.last hb, codePoint_cons code b []⟩)

theorem Completing.exists_cons {tail : List UInt8} (h : Completing later low high tail) :
    ∃ b rest, tail = b :: rest ∧ low ≤ b ∧ b ≤ high := by
  cases h with
  | last h | more h _ => exact ⟨_, _, rfl, h⟩

/-- What a decoder has read of a character that does not go on is a flaw. -/
theorem Decoder.Stands.isFlaw (h : Stands run later low high code)
    (hrest : ∀ b ∈ rest.head?, ¬(low ≤ b ∧ b ≤ high)) : IsFlaw run rest := by
  have hgoesOn {tail : List UInt8} {v : Nat} (hv : Spells (run ++ tail) v) :
      ∃ b rest, tail = b :: rest ∧ low ≤ b ∧ b ≤ high :=
    ((h.spells_iff tail v).1 hv).1.exists_cons
  refine ⟨h.ne_nil, fun c hc => ?_, .inl h.beginsCharacter, fun b hb hbegins => ?_⟩
  · rcases List.prefix_or_prefix_of_prefix hc (List.prefix_append run rest) with
      ⟨s, hs⟩ | ⟨tail, htail⟩
    · -- a character that ends before the run does would be the whole of the one begun
      obtain ⟨c', t, ht⟩ := h.beginsCharacter
      have hwhole : String.utf8EncodeChar c ++ (s ++ t) = String.utf8EncodeChar c' ++ [] := by
        rw [← List.append_assoc, hs, ht, List.append_nil]
      obtain ⟨rfl, hst⟩ := utf8EncodeChar_append_inj hwhole
      obtain ⟨rfl, rfl⟩ := List.append_eq_nil_iff.1 hst
      have hv := spells_utf8EncodeChar c
      rw [← ht] at hv
      obtain ⟨_, _, hnil, -⟩ := hgoesOn hv
      cases hnil
    · have hv := spells_utf8EncodeChar c
      rw [← htail] at hv hc
      obtain ⟨b, more, rfl, hb⟩ := hgoesOn hv
      obtain ⟨behind, rfl⟩ := (List.prefix_append_right_inj run).1 hc
      exact hrest b rfl hb
  · obtain ⟨tail, v, hv⟩ := beginsCharacter_iff.1 hbegins
    rw [List.append_assoc, List.singleton_append] at hv
    obtain ⟨_, _, heq, hb'⟩ := hgoesOn hv
    obtain ⟨rfl, -⟩ := List.cons.inj heq
    exact hrest b hb hb'

theorem IsStray.isFlaw {b : UInt8} (h : IsStray b) (rest : List UInt8) : IsFlaw [b] rest := by
  have hnone {tail : List UInt8} {v : Nat} : ¬Spells (b :: tail) v := by
    intro hv
    cases hv with
    | alone hb =>
      have hb' : b.toNat < 0x80 := hb
      unfold IsStray at h
      omega
    | behind hb _ =>
      rw [h.start] at hb
      cases hb
  refine ⟨List.cons_ne_nil b [], fun c hc => ?_, .inr rfl, fun b' _ hbegins => ?_⟩
  · obtain ⟨behind, hbehind⟩ := hc
    have hv := spells_utf8EncodeChar c
    rcases hbs : String.utf8EncodeChar c with _ | ⟨b', tail⟩
    · exact String.utf8EncodeChar_ne_nil hbs
    · rw [hbs] at hv hbehind
      obtain ⟨rfl, -⟩ := List.cons.inj hbehind
      exact hnone hv
  · obtain ⟨tail, v, hv⟩ := beginsCharacter_iff.1 hbegins
    exact hnone hv

/-! ## The decoder -/

theorem Decoder.exists_inside_of_start (b : UInt8) :
    b < 0x80 ∨ IsStray b ∨
      ∃ later low high code, Decoder.start b = ([], .inside later low high code) := by
  rcases start_cases b with hb | ⟨n, rfl, hn, hlow⟩ | ⟨n, rfl, hn⟩ | ⟨n, rfl, hn⟩ | hb
  · exact .inl hb
  · exact .inr (.inr ⟨_, _, _, _, start_two n hn hlow⟩)
  · exact .inr (.inr ⟨_, _, _, _, start_three n hn⟩)
  · exact .inr (.inr ⟨_, _, _, _, start_four n hn⟩)
  · exact .inr (.inl hb)

theorem decodeFrom_of_not_within {b : UInt8} (h : ¬(low ≤ b ∧ b ≤ high)) (bs : List UInt8) :
    decodeFrom (.inside later low high code) (b :: bs) =
      replacement :: decodeFrom .between (b :: bs) := by
  have hrange : (low ≤ b && b ≤ high) = false := by simpa using h
  simp only [decodeFrom, Decoder.step, hrange, Bool.false_eq_true, if_false]
  rfl

theorem decodeFrom_of_within {b : UInt8} (h : low ≤ b ∧ b ≤ high) (bs : List UInt8) :
    decodeFrom (.inside later low high code) (b :: bs) =
      match later with
      | 0 => Char.ofNat (code * 64 + (b.toNat - 0x80)) :: decodeFrom .between bs
      | later + 1 =>
        decodeFrom (.inside later 0x80 0xBF (code * 64 + (b.toNat - 0x80))) bs := by
  have hrange : (low ≤ b && b ≤ high) = true := by simpa using h
  cases later <;> simp only [decodeFrom, Decoder.step, hrange, if_true] <;> rfl

/-- What a decoder writes is what the octets read as, with those that it has read of a character. -/
theorem reads_decodeFrom (bs : List UInt8) :
    Reads bs (decodeFrom .between bs) ∧
      ∀ run later low high code, Decoder.Stands run later low high code →
        Reads (run ++ bs) (decodeFrom (.inside later low high code) bs) := by
  induction bs with
  | nil =>
    exact ⟨.nil, fun run later low high code h => .flaw (h.isFlaw (by simp)) .nil⟩
  | cons b bs ih =>
    have hbetween : Reads (b :: bs) (decodeFrom .between (b :: bs)) := by
      simp only [decodeFrom, Decoder.step]
      rcases Decoder.exists_inside_of_start b with hb | hb | ⟨later, low, high, code, hb⟩
      · have hc := (Spells.alone hb).utf8EncodeChar_eq
        have hreads := Reads.character (Char.ofNat b.toNat) ih.1
        rw [hc] at hreads
        rwa [Decoder.start, if_pos hb]
      · rw [hb.start]
        exact .flaw (hb.isFlaw bs) ih.1
      · rw [hb]
        exact ih.2 [b] later low high code (.of_start hb)
    refine ⟨hbetween, fun run later low high code h => ?_⟩
    by_cases hb : low ≤ b ∧ b ≤ high
    · rw [decodeFrom_of_within hb, List.append_cons]
      cases later with
      | zero =>
        rw [← h.last hb]
        exact .character _ ih.1
      | succ later => exact ih.2 _ _ _ _ _ (h.next hb)
    · rw [decodeFrom_of_not_within hb]
      exact .flaw (h.isFlaw (by simpa using hb)) hbetween

/-! ## What octets read as -/

theorem BeginsCharacter.of_append {run more : List UInt8} (h : BeginsCharacter (run ++ more)) :
    BeginsCharacter run := by
  obtain ⟨c, hc⟩ := h
  exact ⟨c, (List.prefix_append run more).trans hc⟩

/-- Of two flaws at one place neither is longer. -/
theorem IsFlaw.length_le {run run' rest rest' : List UInt8} (h : IsFlaw run rest)
    (h' : IsFlaw run' rest') (heq : run ++ rest = run' ++ rest') : run'.length ≤ run.length := by
  refine Nat.le_of_not_lt fun hlt => ?_
  have hpre : run <+: run' :=
    List.prefix_of_prefix_length_le (heq ▸ List.prefix_append run rest)
      (List.prefix_append run' rest') (Nat.le_of_lt hlt)
  obtain ⟨more, rfl⟩ := hpre
  rcases more with _ | ⟨b, more⟩
  · simp at hlt
  rw [List.append_assoc] at heq
  obtain rfl := List.append_cancel_left heq
  have hpos := List.length_pos_iff.2 h.ne_nil
  have hbegins : BeginsCharacter (run ++ b :: more) := by
    refine h'.begins.resolve_right fun hone => ?_
    simp only [List.length_append, List.length_cons] at hone
    omega
  rw [List.append_cons] at hbegins
  exact h.longest b rfl hbegins.of_append

theorem IsFlaw.append_inj {run run' rest rest' : List UInt8} (h : IsFlaw run rest)
    (h' : IsFlaw run' rest') (heq : run ++ rest = run' ++ rest') : run = run' ∧ rest = rest' :=
  List.append_inj heq (Nat.le_antisymm (h'.length_le h heq.symm) (h.length_le h' heq))

/-- Octets read as one text only. -/
theorem Reads.unique {bs : List UInt8} {cs cs' : List Char} (h : Reads bs cs)
    (h' : Reads bs cs') : cs = cs' := by
  induction h generalizing cs' with
  | nil =>
    generalize hbs : [] = bs at h'
    cases h' with
    | nil => rfl
    | character c h' =>
      exact (String.utf8EncodeChar_ne_nil (List.append_eq_nil_iff.1 hbs.symm).1).elim
    | flaw hrun h' => exact (hrun.ne_nil (List.append_eq_nil_iff.1 hbs.symm).1).elim
  | @character bs cs c h ih =>
    generalize hbs : String.utf8EncodeChar c ++ bs = all at h'
    cases h' with
    | nil => exact (String.utf8EncodeChar_ne_nil (List.append_eq_nil_iff.1 hbs).1).elim
    | character c' h' =>
      obtain ⟨rfl, rfl⟩ := utf8EncodeChar_append_inj hbs
      rw [ih h']
    | flaw hrun h' => exact (hrun.no_character c ⟨bs, hbs⟩).elim
  | @flaw run bs cs hrun h ih =>
    generalize hbs : run ++ bs = all at h'
    cases h' with
    | nil => exact (hrun.ne_nil (List.append_eq_nil_iff.1 hbs).1).elim
    | character c h' => exact (hrun.no_character c ⟨_, hbs.symm⟩).elim
    | flaw hrun' h' =>
      obtain ⟨rfl, rfl⟩ := hrun.append_inj hrun' hbs
      rw [ih h']

/-- The decoded text is what the octets read as. -/
theorem reads_iff {bs : List UInt8} {s : String} : Reads bs s.toList ↔ decode bs = s := by
  have hdecode : Reads bs (decode bs).toList := by
    rw [decode, String.toList_ofList]
    exact (reads_decodeFrom bs).1
  constructor
  · intro h
    exact String.toList_inj.1 (hdecode.unique h)
  · rintro rfl
    exact hdecode

/-- Octets that read as a text without replacements are the encoding of it. -/
theorem Reads.encode_eq {bs : List UInt8} {cs : List Char} (h : Reads bs cs)
    (hnone : replacement ∉ cs) : cs.flatMap String.utf8EncodeChar = bs := by
  induction h with
  | nil => rfl
  | character c _ ih =>
    rw [List.flatMap_cons, ih fun hmem => hnone (List.mem_cons_of_mem c hmem)]
  | flaw => exact (hnone List.mem_cons_self).elim

theorem isValidUTF8_encode (s : String) : (encode s).toByteArray.IsValidUTF8 :=
  .intro s.toList rfl

/-- A text is decoded and encoded again to the octets it came from if these are well-formed, and
only then. -/
theorem encode_decode_eq_iff {bs : List UInt8} :
    encode (decode bs) = bs ↔ bs.toByteArray.IsValidUTF8 := by
  constructor
  · intro h
    exact h ▸ isValidUTF8_encode (decode bs)
  · rintro ⟨cs, hcs⟩
    have hbs : bs = encode (String.ofList cs) := by
      rw [List.toByteArray_inj.1 hcs, encode, String.toList_ofList]
    rw [hbs, decode_encode]

end RemoteEval.Text
