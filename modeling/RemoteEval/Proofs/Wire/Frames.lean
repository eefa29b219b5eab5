import RemoteEval.Proofs.Text.Utf8
import RemoteEval.Wire.Stream

/-!
# What arrives of a payload

A payload arrives in frames, in one if one receive takes it (`frames_eq_singleton`), and in none
only if it holds no octets (`frames_eq_nil_iff`). A text that is not spelled like a control message
(`isPlain_iff`) is received as itself (`Frame.classify_encode`).
-/

namespace RemoteEval.Wire

theorem frames_eq_nil_iff {capacity : Nat} {bs : List UInt8} :
    frames capacity bs = [] ↔ bs = [] := by
  rw [frames]
  split <;> simp_all

theorem frames_nil (capacity : Nat) : frames capacity [] = [] :=
  frames_eq_nil_iff.2 rfl

theorem frames_eq_singleton {capacity : Nat} {bs : List UInt8} (hne : bs ≠ [])
    (hle : bs.length ≤ receiveSize capacity) : frames capacity bs = [bs] := by
  rw [frames, if_neg hne, List.take_of_length_le hle, List.drop_of_length_le hle, frames_nil]

theorem checkSize_eq_ok_iff {length capacity : Nat} :
    checkSize length capacity = .ok () ↔ length ≤ capacity := by
  unfold checkSize
  split <;> simp_all

/-- A text that fits arrives in one frame. -/
theorem frames_encode {capacity : Nat} {t : String} (hne : t ≠ "")
    (hle : Text.octetCount t ≤ capacity) : frames capacity (Text.encode t) = [Text.encode t] :=
  frames_eq_singleton (fun he => hne (Text.encode_eq_nil_iff.1 he))
    (Nat.le_trans hle (Nat.le_max_left capacity 1))

theorem Sentinel.ofOctets?_octets (s : Sentinel) : ofOctets? s.octets = some s := by
  cases s <;> decide +kernel

theorem Sentinel.ofOctets?_eq_some_iff {bs : List UInt8} {s : Sentinel} :
    ofOctets? bs = some s ↔ bs = s.octets := by
  constructor
  · intro h
    have hs : s.octets = bs := by simpa using List.find?_some h
    exact hs.symm
  · rintro rfl
    exact s.ofOctets?_octets

theorem Sentinel.ofOctets?_eq_none_iff {bs : List UInt8} :
    ofOctets? bs = none ↔ ∀ s : Sentinel, bs ≠ s.octets := by
  rw [Option.eq_none_iff_forall_ne_some]
  exact forall_congr' fun s => not_congr ofOctets?_eq_some_iff

/-- A text is not spelled like a control message. -/
def IsPlain (t : String) : Prop := Sentinel.ofOctets? (Text.encode t) = none

instance (t : String) : Decidable (IsPlain t) := inferInstanceAs (Decidable (_ = _))

theorem isPlain_iff {t : String} : IsPlain t ↔ ∀ s : Sentinel, Text.encode t ≠ s.octets :=
  Sentinel.ofOctets?_eq_none_iff

theorem Frame.classify_encode {t : String} (h : IsPlain t) :
    Frame.classify (Text.encode t) = .text t := by
  rw [classify, show Sentinel.ofOctets? (Text.encode t) = none from h]
  simp only [Text.decode_encode]

end RemoteEval.Wire
