import RemoteEval.Host.Response
import RemoteEval.Proofs.Value.Render
import RemoteEval.Proofs.Wire.Frames

/-!
# The reply without value is unambiguous

A host says that a command gave no value by a control message. Neither the text of a value that an
evaluator can hold nor what is said of a fault is spelled like a control message, and neither is
empty (`encode_isContent`), so that nothing else is answered with that message
(`reply_eq_noValue_iff`).
-/

namespace RemoteEval.Host

open Script (Fault Memory Outcome Run Surroundings)
open Wire (IsPlain Sentinel)

/-! ## Texts that are no control messages -/

/-- A payload that arrives, and not as a control message. -/
structure IsContent (payload : List UInt8) : Prop where
  ne_nil : payload ≠ []
  ne_octets : ∀ s : Sentinel, payload ≠ s.octets

/-- A text that is spelled like a control message starts with a marker and is longer than that. -/
theorem toList_of_encode_eq {t : String} {s : Sentinel} (h : Text.encode t = s.octets) :
    ∃ c rest, t.toList = '\x06' :: c :: rest := by
  obtain rfl : t = Text.decode s.octets := by rw [← h, Text.decode_encode]
  cases s <;> exact ⟨'_', _, rfl⟩

theorem encode_isContent {t : String} (h : Text.Opens t.toList ∨ ∃ c, t.toList = [c]) :
    IsContent (Text.encode t) := by
  constructor
  · rintro he
    rw [Text.encode_eq_nil_iff.1 he] at h
    rcases h with h | ⟨c, h⟩
    · exact h
    · simp at h
  · rintro s he
    obtain ⟨c, rest, hlist⟩ := toList_of_encode_eq he
    rw [hlist] at h
    rcases h with h | ⟨d, h⟩
    · exact absurd h (by decide : ¬ ' ' ≤ '\x06')
    · simp at h

theorem payloadOf_isContent {t : String} (h : Text.Opens t.toList ∨ ∃ c, t.toList = [c]) :
    IsContent (payloadOf t) := by
  have hcontent := encode_isContent h
  rwa [payloadOf, if_neg fun ht => hcontent.ne_nil (Text.encode_eq_nil_iff.2 ht)]

/-! ## Replies -/

theorem opens_report (f : Fault) : Text.Opens f.report.toList := by
  have hkind : Text.Opens f.kind.toList := by
    cases f <;> (rw [Fault.kind]; decide)
  rw [Fault.report, String.append_assoc, String.toList_append]
  exact hkind.append _

theorem reply_fault_isContent (f : Fault) : IsContent (reply (.error f)) :=
  payloadOf_isContent (.inl (opens_report f))

/-- What is sent of a value : its text, or that rendering it was interrupted. -/
theorem reply_render_isContent (w : Surroundings) {v : Value} (hv : v.Scripted) (r : Run) :
    IsContent (reply (Script.Action.render w v r).1) := by
  unfold Script.Action.render
  dsimp only
  split
  · next page hpage =>
    rw [Value.text_of_render hpage]
    exact payloadOf_isContent hv.text_opens
  · exact reply_fault_isContent _

/-- Whatever was evaluated before, and whenever the evaluator is asked to stop : a command is
answered with the control message for no value if and only if its evaluation succeeds without one,
and with a payload that arrives and is no control message otherwise. -/
theorem reply_eq_noValue_iff {m : Memory} (hm : m.Reachable) (w : Surroundings)
    (command : String) :
    ((respond w command m).reply = Sentinel.noValue.octets ↔
      ∃ o, (Script.evaluate w command m).1 = .ok o ∧ o.value = none) ∧
    ((¬∃ o, (Script.evaluate w command m).1 = .ok o ∧ o.value = none) →
      (respond w command m).reply ≠ [] ∧
        ∀ s : Sentinel, (respond w command m).reply ≠ s.octets) := by
  have hvalue := (Script.evaluate_scripted w command hm.scripted).2
  unfold respond
  generalize Script.evaluate w command m = evaluated at hvalue ⊢
  obtain ⟨result, r⟩ := evaluated
  cases result with
  | error f =>
    have hcontent := reply_fault_isContent f
    refine ⟨⟨fun h => (hcontent.ne_octets _ h).elim, ?_⟩, fun _ => ⟨hcontent.1, hcontent.2⟩⟩
    rintro ⟨o, ho, -⟩
    cases ho
  | ok o =>
    cases ho : o.value with
    | none =>
      have hnone : ∃ p, Except.ok o = (Except.ok p : Except Fault Outcome) ∧ p.value = none :=
        ⟨o, rfl, ho⟩
      simp only [renderOutcome, ho]
      exact ⟨⟨fun _ => hnone, fun _ => rfl⟩, fun h => (h hnone).elim⟩
    | some v =>
      have hcontent := reply_render_isContent w (hvalue o v rfl ho) r
      simp only [renderOutcome, ho]
      refine ⟨⟨fun h => (hcontent.ne_octets _ h).elim, ?_⟩, fun _ => ⟨hcontent.1, hcontent.2⟩⟩
      rintro ⟨p, hp, hnone⟩
      cases hp
      rw [ho] at hnone
      cases hnone

/-- An object inside an array that a variable holds, after an interrupt. -/
theorem reply_eq_noValue_iff_object :
    ∃ m : Memory, m.Reachable ∧
      ((respond .quiet "x[0]" m).reply = Sentinel.noValue.octets ↔
        ∃ o, (Script.evaluate .quiet "x[0]" m).1 = .ok o ∧ o.value = none) ∧
      (respond .quiet "x[0]" m).reply = Text.encode "array" ∧
      ∀ s : Sentinel, (respond .quiet "x[0]" m).reply ≠ s.octets := by
  have hm : Memory.Reachable
      (Script.evaluate .quiet "x = [type([]), 1]" Memory.empty.interrupt).2.memory :=
    Script.Memory.Reachable.empty.interrupt.evaluate _ _
  obtain ⟨hiff, hcontent⟩ := reply_eq_noValue_iff hm .quiet "x[0]"
  have hreply : (respond .quiet "x[0]"
      (Script.evaluate .quiet "x = [type([]), 1]" Memory.empty.interrupt).2.memory).reply =
        Text.encode "array" := by
    decide +kernel
  refine ⟨_, hm, hiff, hreply, (hcontent fun h => ?_).2⟩
  rw [← hiff, hreply] at h
  exact absurd h (by decide)

end RemoteEval.Host
