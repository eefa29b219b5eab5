import Mathlib
import RemoteEval.Number.Binary64

/-!
# Equality of floating-point numbers

Two floating-point numbers are equal if the same is left of them once a zero has no sign, and
nothing is left of what is no number (`beq_iff`). So their equality is symmetric and transitive,
though not reflexive.

Integers nearer to zero than `exactLimit` are floating-point numbers (`unpack_ofInt`), each one of
its own, so equality tells them apart (`ofInt64_inj`).
-/

namespace RemoteEval.Number

open Float.Model Float.Model.UnpackedFloat

variable {m : Nat} {e : Int} {s t : Sign} {u v : UnpackedFloat} {x y z : Float}

/-! ## Equality -/

/-- What a floating-point number is compared by : all of it, but not the sign of a zero. -/
def compared : UnpackedFloat → Option UnpackedFloat
  | .notANumber => none
  | .zero _ => some (.zero .positive)
  | u => some u

theorem compare_eq_iff_compared :
    u.compare v = some .eq ↔ ∃ w, compared u = some w ∧ compared v = some w := by
  rcases u with s | _ | s | ⟨s, m, e, hm⟩ <;> rcases v with t | _ | t | ⟨t, n, f, hn⟩
  case finite.finite =>
    have hpair : (compare e f).then (compare m n) = .eq ↔ n = m ∧ f = e := by
      rw [Ordering.then_eq_eq, compare_eq_iff_eq, compare_eq_iff_eq, and_comm, eq_comm,
        @eq_comm _ e]
    cases s <;> cases t <;> simp [UnpackedFloat.compare, compared, hpair]
  case infinity.infinity =>
    cases s <;> cases t <;> simp [UnpackedFloat.compare, compared] <;> decide
  all_goals (try cases s) <;> (try cases t) <;> simp [UnpackedFloat.compare, compared]

theorem beq_iff : (x == y) = true ↔
    ∃ w, compared x.toModel.unpack = some w ∧ compared y.toModel.unpack = some w := by
  have hbeq : (x == y) = (x.toModel.unpack.compare y.toModel.unpack == some .eq) := rfl
  rw [hbeq, beq_iff_eq, compare_eq_iff_compared]

theorem beq_symm (x y : Float) : (x == y) = (y == x) := by
  rw [Bool.eq_iff_iff, beq_iff, beq_iff]
  simp only [and_comm]

theorem beq_trans (hxy : (x == y) = true) (hyz : (y == z) = true) : (x == z) = true := by
  obtain ⟨w, hx, hy⟩ := beq_iff.1 hxy
  obtain ⟨w', hy', hz⟩ := beq_iff.1 hyz
  rw [hy] at hy'
  cases hy'
  exact beq_iff.2 ⟨w, hx, hz⟩

/-! ## Rounding what needs no rounding -/

theorem log2_mul_two_pow (hm : m ≠ 0) (k : Nat) : (m * 2 ^ k).log2 = m.log2 + k := by
  induction k with
  | zero => rw [Nat.pow_zero, Nat.mul_one, Nat.add_zero]
  | succ k ih =>
    have hne : m * 2 ^ k ≠ 0 := Nat.mul_ne_zero hm (Nat.two_pow_pos k).ne'
    rw [Nat.pow_succ', Nat.mul_left_comm, Nat.log2_two_mul hne, ih, Nat.add_assoc]

/-- Nothing is lost when zeros are dropped. -/
theorem exact_shiftRight (m k : Nat) :
    ExtendedMantissa.ofMantissaAndAccuracy (m * 2 ^ k) .exact >>> k =
      ExtendedMantissa.ofMantissaAndAccuracy m .exact := by
  change k.repeat ExtendedMantissa.shiftRightOne _ = _
  induction k generalizing m with
  | zero =>
    rw [Nat.pow_zero, Nat.mul_one]
    rfl
  | succ k ih =>
    rw [Nat.repeat, Nat.pow_succ', ← Nat.mul_assoc, ih (m * 2)]
    simp [ExtendedMantissa.shiftRightOne, ExtendedMantissa.ofMantissaAndAccuracy]

/-- A mantissa of 53 digits goes back to itself from behind zeros. -/
theorem shiftToTargetExponent_exact (hm : m.log2 = 52) (he : -1074 ≤ e) (k : Nat) :
    shiftToTargetExponent Format.binary64 (m * 2 ^ k) (e - k) .exact =
      (.ofMantissaAndAccuracy m .exact, e) := by
  have hne : m ≠ 0 := by
    rintro rfl
    cases hm
  have htarget : Format.binary64.targetExponent (totalExponent (m * 2 ^ k) (e - k)) = e := by
    simp only [Format.targetExponent, totalExponent, log2_mul_two_pow hne, hm, Format.minExponent,
      Format.mantissaBits]
    omega
  have hamount : (e - (e - k)).toNat = k := by omega
  simp only [shiftToTargetExponent, shiftToExponent, htarget, hamount, exact_shiftRight,
    Int.sub_add_cancel]

theorem roundWithAccuracy_exact (hm : m.log2 = 52) (he : -1074 ≤ e) (h : 0 < m) (k : Nat) :
    roundWithAccuracy Format.binary64 s (m * 2 ^ k) (e - k) .exact = .finite s m e h := by
  have hshift := shiftToTargetExponent_exact hm he 0
  rw [Nat.pow_zero, Nat.mul_one, Nat.cast_zero, Int.sub_zero] at hshift
  have hrounded : (ExtendedMantissa.ofMantissaAndAccuracy m .exact).roundedMantissa = m := rfl
  have hmantissa : (ExtendedMantissa.ofMantissaAndAccuracy m .exact).mantissa = m := rfl
  simp only [roundWithAccuracy, shiftToTargetExponent_exact hm he k, hrounded, hshift, hmantissa,
    dif_neg h.ne']

/-! ## Packing -/

theorem toNat_implicit (hm : m.log2 = 52) : (1#1 ++ BitVec.ofNat 52 m).toNat = m := by
  have hne : m ≠ 0 := by
    rintro rfl
    cases hm
  obtain ⟨hlow, hhigh⟩ := (Nat.log2_eq_iff hne).1 hm
  rw [BitVec.toNat_append, ← Nat.shiftLeft_add_eq_or_of_lt (BitVec.isLt _)]
  simp only [BitVec.toNat_ofNat, Nat.shiftLeft_eq]
  omega

theorem sign_packComponents (s : Sign) (exponent : BitVec 11) (mantissa : BitVec 52) :
    Sign.ofBitVec (unpackSign (packComponents Format.binary64 s exponent mantissa)) = s := by
  simp only [unpackSign, packComponents, BitVec.extractLsb]
  rw [BitVec.extractLsb'_append_eq_of_le (by omega),
    BitVec.extractLsb'_append_eq_of_le (by omega)]
  cases s <;> rfl

/-- A number with 53 digits survives being packed. -/
theorem unpack_pack_normal (hm : m.log2 = 52) (he : -1074 ≤ e) (he' : e ≤ 971) (h : 0 < m) :
    (Float.Model.pack (.finite s m e h)).unpack = .finite s m e h := by
  obtain ⟨b, hb⟩ : ∃ b : Nat, (b : Int) = e + 1075 := ⟨(e + 1075).toNat, by omega⟩
  have hbiased : (e + (Format.binary64.exponentBias : Int) + (52 : Nat)).toNat = b := by
    have hbias : Format.binary64.exponentBias = 1023 := rfl
    omega
  have hpacked : UnpackedFloat.pack Format.binary64 (.finite s m e h) =
      packComponents Format.binary64 s (BitVec.ofNat 11 b) (BitVec.ofNat 52 m) := by
    simp only [UnpackedFloat.pack, hbiased, hm]
    rw [if_neg (by omega)]
    rfl
  have hexponent : (BitVec.ofNat 11 b).toNat = b := by
    rw [BitVec.toNat_ofNat]
    omega
  have hne (v : BitVec 11) (hv : b ≠ v.toNat) : BitVec.ofNat 11 b ≠ v := by
    rintro rfl
    exact hv hexponent.symm
  have hones : BitVec.ofNat 11 b ≠ -1#11 := hne _ (by change b ≠ 2047; omega)
  have hzero : BitVec.ofNat 11 b ≠ 0#11 := hne _ (by change b ≠ 0; omega)
  have hunpack : (Float.Model.pack (.finite s m e h)).unpack =
      UnpackedFloat.unpack Format.binary64
        (UnpackedFloat.pack Format.binary64 (.finite s m e h)) := rfl
  have hbias : ((Format.binary64.exponentBias : Int) + (52 : Nat)) = 1075 := rfl
  rw [hunpack, hpacked]
  simp only [UnpackedFloat.unpack, unpackMantissa_packComponents, unpackExponent_packComponents,
    sign_packComponents, if_neg hones, if_neg hzero, hexponent, hbias, toNat_implicit hm]
  congr 1
  omega

/-! ## Integers -/

/-- Integers nearer to zero than this are floating-point numbers. -/
def exactLimit : Nat := 1 <<< 53

/-- A whole number less than the limit and a sign as a floating-point number. -/
def exactly (s : Sign) (m : Nat) : UnpackedFloat :=
  if h : m = 0 then .zero s
  else .finite s (m * 2 ^ (52 - m.log2)) (m.log2 - 52)
    (Nat.mul_pos (Nat.pos_of_ne_zero h) (Nat.two_pow_pos _))

theorem log2_le_of_lt (h : m < exactLimit) : m.log2 ≤ 52 := by
  by_cases hm : m = 0
  · subst hm
    decide
  · exact Nat.lt_succ_iff.1 ((Nat.log2_lt hm).2 h)

theorem log2_exactly (hm : m ≠ 0) (h : m < exactLimit) :
    (m * 2 ^ (52 - m.log2)).log2 = 52 := by
  rw [log2_mul_two_pow hm, Nat.add_sub_cancel' (log2_le_of_lt h)]

theorem unpack_pack_exactly (h : m < exactLimit) (s : Sign) :
    (Float.Model.pack (exactly s m)).unpack = exactly s m := by
  unfold exactly
  split
  · cases s <;> rfl
  · next hm =>
    have hlog := log2_le_of_lt h
    exact unpack_pack_normal (log2_exactly hm h) (by omega) (by omega) _

/-- A whole number less than the limit is not rounded. -/
theorem ofNat_exactly (h : m < exactLimit) :
    UnpackedFloat.ofNat Format.binary64 m = exactly .positive m := by
  by_cases hm : m = 0
  · subst hm
    rfl
  · have hlog := log2_le_of_lt h
    have hpos : 0 < m := Nat.pos_of_ne_zero hm
    have hcompare : compare (m : Int) 0 = .gt := Int.compare_eq_gt.2 (by omega)
    have htarget : Format.binary64.targetExponent (totalExponent m 0) = m.log2 - 52 := by
      simp only [Format.targetExponent, totalExponent, Format.minExponent, Format.mantissaBits]
      omega
    have hamount : ((0 : Int) - (m.log2 - 52)).toNat = 52 - m.log2 := by omega
    have hexponent : (0 : Int) - (52 - m.log2 : Nat) = m.log2 - 52 := by omega
    have hround := roundWithAccuracy_exact (s := .positive) (e := m.log2 - 52)
      (log2_exactly hm h) (by omega) (Nat.mul_pos hpos (Nat.two_pow_pos _)) 0
    rw [Nat.pow_zero, Nat.mul_one, Nat.cast_zero, Int.sub_zero] at hround
    simp only [UnpackedFloat.ofNat, UnpackedFloat.ofInt, UnpackedFloat.normalize, hcompare,
      Int.toNat_natCast, UnpackedFloat.round, htarget, decreaseExponent, hamount, hexponent,
      Nat.shiftLeft_eq, hround, exactly, dif_neg hm]

/-- Nothing changes when it is multiplied by one. -/
theorem mul_one_exactly (h : m < exactLimit) (s : Sign) :
    UnpackedFloat.mul Format.binary64 (exactly s m) (exactly .positive 1) = exactly s m := by
  have hsign : s * .positive = s := by cases s <;> rfl
  have hone : exactly .positive 1 = .finite .positive (2 ^ 52) (-52) (by decide) := rfl
  rw [hone]
  by_cases hm : m = 0
  · subst hm
    simp only [exactly, dif_pos, UnpackedFloat.mul, hsign]
  · have hlog := log2_le_of_lt h
    have hround := roundWithAccuracy_exact (s := s) (e := m.log2 - 52) (log2_exactly hm h)
      (by omega) (Nat.mul_pos (Nat.pos_of_ne_zero hm) (Nat.two_pow_pos _)) 52
    simp only [exactly, dif_neg hm, UnpackedFloat.mul, hsign]
    exact hround

theorem unpack_ofNat (h : m < exactLimit) :
    (Float.ofNat m).toModel.unpack = exactly .positive m := by
  have hcond : m < 2 ^ 53 ∧ 0 ≤ 22 := ⟨h, Nat.zero_le _⟩
  have hone : (Float.ofBits 0x3FF0000000000000).toModel.unpack = exactly .positive 1 := rfl
  have hword : (m.toUInt64.toFloat).toModel.unpack = exactly .positive m := by
    have hsmall : m < 2 ^ 64 := lt_trans h (by decide)
    have hto : m.toUInt64.toNat = m := by
      rw [Nat.toUInt64_eq, UInt64.toNat_ofNat', Nat.mod_eq_of_lt hsmall]
    change (Float.Model.pack (UnpackedFloat.ofNat Format.binary64 m.toUInt64.toNat)).unpack = _
    rw [hto, ofNat_exactly h, unpack_pack_exactly h]
  have hproduct : Float.ofNat m = m.toUInt64.toFloat * Float.ofBits 0x3FF0000000000000 := by
    change Float.ofScientific m false 0 = _
    rw [Float.ofScientific, dif_pos hcond]
    rfl
  have hmul : (m.toUInt64.toFloat * Float.ofBits 0x3FF0000000000000).toModel.unpack =
      (Float.Model.pack (UnpackedFloat.mul Format.binary64 (m.toUInt64.toFloat).toModel.unpack
        (Float.ofBits 0x3FF0000000000000).toModel.unpack)).unpack := rfl
  rw [hproduct, hmul, hone, hword, mul_one_exactly h, unpack_pack_exactly h]

/-- The sign of an integer, of which zero has the positive one. -/
def signOf : Int → Sign
  | .ofNat _ => .positive
  | .negSucc _ => .negative

/-- An integer nearer to zero than the limit is a floating-point number. -/
theorem unpack_ofInt {i : Int} (h : i.natAbs < exactLimit) :
    (Float.ofInt i).toModel.unpack = exactly (signOf i) i.natAbs := by
  cases i with
  | ofNat n => exact unpack_ofNat h
  | negSucc n =>
    have hlimit : n + 1 < exactLimit := h
    have hneg : (Float.ofInt (.negSucc n)).toModel.unpack =
        (Float.Model.pack (Float.ofNat (n + 1)).toModel.unpack.neg).unpack := rfl
    have hexact : (exactly .positive (n + 1)).neg = exactly .negative (n + 1) := rfl
    rw [hneg, unpack_ofNat hlimit, hexact, unpack_pack_exactly hlimit]
    rfl

/-- Different whole numbers, and different signs of one that is not zero, are compared by different
things. -/
theorem compared_exactly_inj {n : Nat} (h : compared (exactly s m) = compared (exactly t n)) :
    m = n ∧ (m = 0 ∨ s = t) := by
  unfold exactly at h
  split at h <;> split at h
  · next hm hn => exact ⟨hm.trans hn.symm, .inl hm⟩
  · simp [compared] at h
  · simp [compared] at h
  · next hm hn =>
    simp only [compared, Option.some.injEq, UnpackedFloat.finite.injEq] at h
    obtain ⟨hs, hmantissa, hexponent⟩ := h
    have hlog : m.log2 = n.log2 := by omega
    rw [hlog] at hmantissa
    exact ⟨Nat.mul_right_cancel (Nat.two_pow_pos _) hmantissa, .inr hs⟩

/-- Equality tells integers apart that are nearer to zero than the limit. -/
theorem ofInt64_inj {i k : Int64} (hi : i.toInt.natAbs < exactLimit)
    (hk : k.toInt.natAbs < exactLimit) (h : (ofInt64 i == ofInt64 k) = true) : i = k := by
  obtain ⟨w, hw, hw'⟩ := beq_iff.1 h
  rw [ofInt64, unpack_ofInt hi] at hw
  rw [ofInt64, unpack_ofInt hk] at hw'
  obtain ⟨habs, hsign⟩ := compared_exactly_inj (hw.trans hw'.symm)
  refine Int64.toInt_inj.1 ?_
  cases hi' : i.toInt <;> cases hk' : k.toInt <;> rw [hi', hk'] at habs hsign <;>
    simp [signOf] at habs hsign ⊢ <;> omega

end RemoteEval.Number
