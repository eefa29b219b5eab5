import RemoteEval.Proofs.Text.Lossy
import RemoteEval.Proofs.Wire.Frames

/-!
# What a payload is taken for

A payload is taken for the control message that it spells, and for the text that it reads as if it
spells none. Nothing else is spelled like a control message once it was read
(`encode_decode_eq_octets_iff`), so that a frame is sent again as one that is taken for the same, by
octets that are those of the payload if it was well-formed (`classify_normal`).
-/

namespace RemoteEval.Wire

open Text (Reads decode encode replacement)

variable {bs : List UInt8}

namespace Frame

theorem classify_eq_sentinel_iff {s : Sentinel} : classify bs = .sentinel s ↔ bs = s.octets := by
  rw [classify, ← Sentinel.ofOctets?_eq_some_iff]
  split <;> simp_all

theorem classify_eq_text_iff {t : String} :
    classify bs = .text t ↔ (∀ s : Sentinel, bs ≠ s.octets) ∧ decode bs = t := by
  rw [classify, ← Sentinel.ofOctets?_eq_none_iff]
  split <;> simp_all

end Frame

/-- A control message is read without replacements. -/
theorem replacement_notMem_decode_octets (s : Sentinel) :
    replacement ∉ (decode s.octets).toList := by
  cases s <;> decide +kernel

theorem encode_decode_octets (s : Sentinel) : encode (decode s.octets) = s.octets :=
  (Text.reads_iff.2 rfl).encode_eq (replacement_notMem_decode_octets s)

/-- Only a control message reads as a text that is spelled like one. -/
theorem encode_decode_eq_octets_iff {s : Sentinel} :
    encode (decode bs) = s.octets ↔ bs = s.octets := by
  constructor
  · intro h
    have hdecode : decode bs = decode s.octets := by rw [← h, Text.decode_encode]
    have hreads : Reads bs (decode s.octets).toList := Text.reads_iff.2 hdecode
    have hsame := hreads.encode_eq (replacement_notMem_decode_octets s)
    exact hsame.symm.trans (encode_decode_octets s)
  · rintro rfl
    exact encode_decode_octets s

/-- **Classification is a normal form.** A payload is taken for a control message if it is spelled
like it, and otherwise for the text that it reads as, which is never spelled like one. The octets of
the frame are taken for the same frame, and are those of the payload if and only if these are
well-formed. -/
theorem classify_normal (bs : List UInt8) :
    Frame.classify (Frame.classify bs).octets = Frame.classify bs ∧
    (∀ s, Frame.classify bs = .sentinel s ↔ bs = s.octets) ∧
    (∀ t, Frame.classify bs = .text t ↔ (∀ s : Sentinel, bs ≠ s.octets) ∧ Reads bs t.toList) ∧
    (∀ s : Sentinel, encode (decode bs) = s.octets ↔ bs = s.octets) ∧
    ((Frame.classify bs).octets = bs ↔ bs.toByteArray.IsValidUTF8) := by
  refine ⟨?_, fun s => Frame.classify_eq_sentinel_iff, fun t => ?_,
    fun s => encode_decode_eq_octets_iff, ?_⟩
  · cases hf : Frame.classify bs with
    | sentinel s => exact Frame.classify_eq_sentinel_iff.2 rfl
    | text t =>
      obtain ⟨hplain, rfl⟩ := Frame.classify_eq_text_iff.1 hf
      refine Frame.classify_eq_text_iff.2 ⟨fun s hs => ?_, Text.decode_encode _⟩
      exact hplain s (encode_decode_eq_octets_iff.1 hs)
  · rw [Frame.classify_eq_text_iff, Text.reads_iff]
  · cases hf : Frame.classify bs with
    | sentinel s =>
      rw [Frame.classify_eq_sentinel_iff.1 hf]
      exact iff_of_true rfl (Text.encode_decode_eq_iff.1 (encode_decode_octets s))
    | text t =>
      obtain ⟨-, rfl⟩ := Frame.classify_eq_text_iff.1 hf
      exact Text.encode_decode_eq_iff

end RemoteEval.Wire
