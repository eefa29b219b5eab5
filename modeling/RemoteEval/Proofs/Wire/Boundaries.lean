import Mathlib.Data.List.Forall2
import RemoteEval.Proofs.Wire.Frames

/-!
# Payloads and their frames

Payloads that are sent one after another arrive as they were cut for the receiver, each on its own.
What it means that frames are the cut of a payload is said without the loop that receives them
(`IsCut`) : nothing is lost, no frame is empty or longer than one receive takes, and only the last
one may be shorter. A payload has one such cut (`IsCut.unique`), and `frames` is it
(`isCut_frames`). What the sender's check accepts is one frame, and what it refuses is more than one
(`IsCut.eq_singleton`, `IsCut.two_le_length`), also where nothing but the empty payload passes the
check and the receiver takes one octet all the same.

`sendAll` sends payloads in turn, and `writes` reads off the other end of the stream what was
written in one go. `readAll_writes_sendAll` joins the two ends.
-/

namespace RemoteEval.Wire

variable {capacity : Nat} {payload : List UInt8}

/-! ## Cuts -/

/-- Frames are a payload, cut for a receiver. -/
structure IsCut (capacity : Nat) (payload : List UInt8) (group : List (List UInt8)) : Prop where
  /-- Together the frames are the payload. -/
  joined : group.flatten = payload
  /-- A frame is what one receive takes. -/
  bounded : ∀ f ∈ group, f ≠ [] ∧ f.length ≤ max capacity 1
  /-- All frames but the last are as long as possible. -/
  full : ∀ f ∈ group.dropLast, f.length = max capacity 1

theorem isCut_nil (capacity : Nat) : IsCut capacity [] [] :=
  ⟨rfl, by simp, by simp⟩

namespace IsCut

variable {group : List (List UInt8)}

theorem eq_nil_iff (h : IsCut capacity payload group) : group = [] ↔ payload = [] := by
  constructor
  · rintro rfl
    exact h.joined.symm
  · rintro rfl
    refine List.eq_nil_iff_forall_not_mem.2 fun f hf => (h.bounded f hf).1 ?_
    exact List.flatten_eq_nil_iff.1 h.joined f hf

/-- The frames behind the first one are the cut of what is behind it. -/
theorem tail {f : List UInt8} (h : IsCut capacity payload (f :: group)) :
    IsCut capacity group.flatten group where
  joined := rfl
  bounded g hg := h.bounded g (List.mem_cons_of_mem f hg)
  full g hg := by
    have hne : group ≠ [] := fun hnil => by simp [hnil] at hg
    refine h.full g ?_
    rw [List.dropLast_cons_of_ne_nil hne]
    exact List.mem_cons_of_mem f hg

/-- The first frame is what one receive takes of the payload. -/
theorem head_eq {f : List UInt8} (h : IsCut capacity payload (f :: group)) :
    f = payload.take (max capacity 1) ∧ group.flatten = payload.drop (max capacity 1) := by
  have hjoined : payload = f ++ group.flatten := by rw [← h.joined, List.flatten_cons]
  rcases eq_or_ne group [] with rfl | hne
  · have hpayload : payload = f := by simpa using hjoined
    have hle : payload.length ≤ max capacity 1 := hpayload ▸ (h.bounded f (by simp)).2
    exact ⟨hpayload ▸ (List.take_of_length_le hle).symm, (List.drop_of_length_le hle).symm⟩
  · have hlen : f.length = max capacity 1 :=
      h.full f (by rw [List.dropLast_cons_of_ne_nil hne]; exact List.mem_cons_self)
    rw [hjoined, ← hlen, List.take_left, List.drop_left]
    exact ⟨rfl, rfl⟩

/-- A payload is cut in one way only. -/
theorem unique {other : List (List UInt8)} (h : IsCut capacity payload group)
    (ho : IsCut capacity payload other) : group = other := by
  induction group generalizing payload other with
  | nil => exact (ho.eq_nil_iff.2 (h.eq_nil_iff.1 rfl)).symm
  | cons f group ih =>
    cases other with
    | nil => exact h.eq_nil_iff.2 (ho.eq_nil_iff.1 rfl)
    | cons g other =>
      -- Both begin with what one receive takes, and go on with the cut of what is left.
      have hrest : group.flatten = other.flatten := h.head_eq.2.trans ho.head_eq.2.symm
      rw [h.head_eq.1, ho.head_eq.1, ih h.tail (hrest ▸ ho.tail)]

/-- What one receive takes is one frame. -/
theorem eq_singleton (h : IsCut capacity payload group) (hne : payload ≠ [])
    (hfits : checkSize payload.length capacity = .ok ()) : group = [payload] := by
  have hle : payload.length ≤ max capacity 1 :=
    Nat.le_trans (checkSize_eq_ok_iff.1 hfits) (Nat.le_max_left capacity 1)
  refine h.unique ⟨by simp, ?_, by simp⟩
  simp only [List.mem_singleton, forall_eq]
  exact ⟨hne, hle⟩

/-- What one receive does not take is more than one frame. -/
theorem two_le_length (h : IsCut capacity payload group) (hpos : 1 ≤ capacity)
    (hlong : checkSize payload.length capacity ≠ .ok ()) : 2 ≤ group.length := by
  have hlt : capacity < payload.length := Nat.lt_of_not_le (mt checkSize_eq_ok_iff.2 hlong)
  match group, h with
  | [], h => simp [← h.joined] at hlt
  | [f], h =>
    have hle : payload.length ≤ max capacity 1 := by
      simpa [← h.joined] using (h.bounded f (by simp)).2
    omega
  | _ :: _ :: _, _ => simp

end IsCut

/-- The frames in which a payload arrives are its cut. -/
theorem isCut_frames (capacity : Nat) (payload : List UInt8) :
    IsCut capacity payload (frames capacity payload) := by
  fun_induction frames capacity payload with
  | case1 => exact isCut_nil capacity
  | case2 bs hne ih =>
    have hpos : 0 < bs.length := List.length_pos_iff.2 hne
    refine ⟨?_, ?_, ?_⟩
    · rw [List.flatten_cons, ih.joined, List.take_append_drop]
    · refine List.forall_mem_cons.2 ⟨⟨?_, ?_⟩, ih.bounded⟩
      · simp [receiveSize, hne]
      · exact List.length_take_le _ _
    · intro f hf
      rcases eq_or_ne (frames capacity (bs.drop (receiveSize capacity))) [] with hnil | hmore
      · simp [hnil] at hf
      · rw [List.dropLast_cons_of_ne_nil hmore] at hf
        rcases List.mem_cons.1 hf with rfl | hf
        · -- Something is left behind the first frame, so it is full.
          have hrest := mt frames_eq_nil_iff.2 hmore
          rw [List.drop_eq_nil_iff] at hrest
          rw [List.length_take, Nat.min_eq_left (Nat.le_of_not_le hrest)]
          rfl
        · exact ih.full f hf

/-! ## Sending in turn -/

/-- Send payloads one after another, until one fails. -/
def Outlet.sendAll (o : Outlet) : List (List UInt8) → Option LinkError × Outlet
  | [] => (none, o)
  | payload :: rest =>
    match o.send payload with
    | (none, o) => o.sendAll rest
    | (some e, o) => (some e, o)

/-- What was written in one go each, if octets were written before and nothing was flushed since. -/
def writesFrom (before : List UInt8) : List Sight → List (List UInt8)
  | [] => if before = [] then [] else [before]
  | .octet b :: rest => writesFrom (before ++ [b]) rest
  | .flush :: rest | .shutdown :: rest =>
    if before = [] then writesFrom [] rest else before :: writesFrom [] rest

/-- What was written in one go each. Nothing is written of a payload without octets. -/
def writes (seen : List Sight) : List (List UInt8) := writesFrom [] seen

theorem writesFrom_octets (before bs : List UInt8) (rest : List Sight) :
    writesFrom before (bs.map .octet ++ rest) = writesFrom (before ++ bs) rest := by
  induction bs generalizing before with
  | nil => simp
  | cons b bs ih => simp [writesFrom, ih]

/-- What a stream sees of payloads that it takes. -/
def sights (payloads : List (List UInt8)) : List Sight :=
  payloads.flatMap fun p => p.map .octet ++ [.flush]

theorem writes_sights (payloads : List (List UInt8)) :
    writes (sights payloads) = payloads.filter (· ≠ []) := by
  induction payloads with
  | nil => rfl
  | cons p payloads ih =>
    have hp : writes (sights (p :: payloads)) =
        if p = [] then writes (sights payloads) else p :: writes (sights payloads) := by
      simp [writes, sights, writesFrom_octets, writesFrom]
    rw [hp, ih]
    by_cases hnil : p = [] <;> simp [hnil]

/-- A stream with enough room takes a payload as a whole. -/
theorem Outlet.send_eq {o : Outlet} (hroom : payload.length ≤ o.room)
    (hstride : payload.length ≤ o.stride) :
    o.send payload = (none, { o with
      room := o.room - payload.length
      seen := o.seen ++ payload.map .octet ++ [.flush] }) := by
  have htakes : o.takes payload = payload.length := by
    unfold takes
    split <;> omega
  simp [send, htakes]

/-- A stream with enough room takes all payloads. -/
theorem Outlet.sendAll_eq {o : Outlet} {payloads : List (List UInt8)}
    (hroom : payloads.flatten.length ≤ o.room) (hstride : ∀ p ∈ payloads, p.length ≤ o.stride) :
    (o.sendAll payloads).1 = none ∧
      (o.sendAll payloads).2.seen = o.seen ++ sights payloads := by
  induction payloads generalizing o with
  | nil => exact ⟨rfl, (List.append_nil _).symm⟩
  | cons p payloads ih =>
    rw [List.flatten_cons, List.length_append] at hroom
    obtain ⟨hp, hrest⟩ := List.forall_mem_cons.1 hstride
    simp only [sendAll, Outlet.send_eq (Nat.le_of_add_right_le hroom) hp]
    obtain ⟨herror, hseen⟩ := @ih { o with
      room := o.room - p.length
      seen := o.seen ++ p.map .octet ++ [.flush] } (by simp only; omega) hrest
    exact ⟨herror, by rw [hseen]; simp [sights]⟩

/-! ## Both ends -/

/-- A stream that is never cut off is read payload by payload. -/
theorem readAll_payloads (capacity : Nat) (payloads : List (List UInt8)) :
    readAll capacity ((payloads.filter (· ≠ [])).map .payload) =
      ((payloads.map (frames capacity)).flatten, .closed) := by
  induction payloads with
  | nil => rfl
  | cons p payloads ih =>
    by_cases hnil : p = []
    · simpa [hnil, frames_nil] using ih
    · rw [List.filter_cons_of_pos (by simpa using hnil), List.map_cons, readAll, if_neg hnil, ih]
      rfl

theorem flatten_flatten_eq_of_forall₂ {payloads : List (List UInt8)}
    {groups : List (List (List UInt8))} (h : List.Forall₂ (IsCut capacity) payloads groups) :
    groups.flatten.flatten = payloads.flatten := by
  induction h with
  | nil => rfl
  | cons hp _ ih => rw [List.flatten_cons, List.flatten_append, hp.joined, ih, List.flatten_cons]

/-- **Framing keeps octets and boundaries.** Payloads that a stream takes in one go each arrive in
groups of frames, a group for each payload : its cut, which is one frame if the sender's check
accepts the payload and at least two frames if it refuses it, unless the receiver has no capacity
at all. -/
theorem readAll_writes_sendAll (capacity : Nat) (payloads : List (List UInt8)) (o : Outlet)
    (hfresh : o.seen = []) (hroom : payloads.flatten.length ≤ o.room)
    (hstride : ∀ p ∈ payloads, p.length ≤ o.stride) :
    (o.sendAll payloads).1 = none ∧
    ∃ groups : List (List (List UInt8)),
      readAll capacity ((writes (o.sendAll payloads).2.seen).map .payload) =
        (groups.flatten, .closed) ∧
      groups.flatten.flatten = payloads.flatten ∧
      List.Forall₂ (fun p group => IsCut capacity p group ∧
        (p ≠ [] → checkSize p.length capacity = .ok () → group = [p]) ∧
        (1 ≤ capacity → checkSize p.length capacity ≠ .ok () → 2 ≤ group.length))
        payloads groups := by
  obtain ⟨herror, hseen⟩ := Outlet.sendAll_eq hroom hstride
  have hcut : List.Forall₂ (IsCut capacity) payloads (payloads.map (frames capacity)) :=
    List.forall₂_map_right_iff.2 (List.forall₂_same.2 fun p _ => isCut_frames capacity p)
  refine ⟨herror, payloads.map (frames capacity), ?_, flatten_flatten_eq_of_forall₂ hcut, ?_⟩
  · rw [hseen, hfresh, List.nil_append, writes_sights, readAll_payloads]
  · exact hcut.imp fun p group h => ⟨h, h.eq_singleton, h.two_le_length⟩

/-- A payload as long as the receiver's capacity, one octet more, and none at all. -/
theorem readAll_writes_sendAll_boundary :
    ((⟨5, 3, []⟩ : Outlet).sendAll [[1, 2], [3, 4, 5], []]).1 = none ∧
    ∃ groups : List (List (List UInt8)),
      readAll 2 ((writes ((⟨5, 3, []⟩ : Outlet).sendAll [[1, 2], [3, 4, 5], []]).2.seen).map
        .payload) = (groups.flatten, .closed) ∧
      groups.flatten.flatten = [1, 2, 3, 4, 5] ∧
      List.Forall₂ (fun p group => IsCut 2 p group ∧
        (p ≠ [] → checkSize p.length 2 = .ok () → group = [p]) ∧
        (1 ≤ 2 → checkSize p.length 2 ≠ .ok () → 2 ≤ group.length))
        [[1, 2], [3, 4, 5], []] groups :=
  readAll_writes_sendAll 2 [[1, 2], [3, 4, 5], []] ⟨5, 3, []⟩ rfl (by decide) (by decide)

end RemoteEval.Wire
