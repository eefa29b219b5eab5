import RemoteEval.Proofs.Shell.Dialogue
import RemoteEval.Proofs.Shell.Draft

/-!
# The prompts of a dialogue

Where each line is answered in full before the next is read, the prompts that are shown are those
that the entries lead to, whatever the other side answers, until it closes the connection
(`Dialogue.prompts_run`). An exchange with the other side is nothing but steps of others
(`Dialogue.meanwhile_exchange`), which leave the open statement alone.
-/

namespace RemoteEval.Shell

open Relation (ReflTransGen)
open Session (Meanwhile)

variable {σ : Type} {peer : Peer σ} {c : Nat} {w : List (List UInt8)} {s next : Session}
  {continuing : Bool} {draft : Draft} {d : Dialogue σ}

/-! ## What comes from the other side -/

theorem Session.meanwhile_deliver (s : Session) (delivery : Delivery) :
    ReflTransGen Meanwhile s (s.deliver delivery) := by
  unfold Session.deliver
  split
  · exact .refl
  · next hopen =>
    cases delivery with
    | payload bs => exact .single (.arrive bs (by simpa using hopen))
    | hangUp => exact .single .hangUp

theorem Session.meanwhile_deliveries (deliveries : List Delivery) (s : Session) :
    ReflTransGen Meanwhile s (deliveries.foldl Session.deliver s) := by
  induction deliveries generalizing s with
  | nil => exact .refl
  | cons delivery deliveries ih => exact (s.meanwhile_deliver delivery).trans (ih _)

theorem Session.meanwhile_receiveAll (limit : Nat) (s : Session) :
    ReflTransGen Meanwhile s (Session.receiveAll limit s) := by
  induction limit generalizing s with
  | zero => exact .refl
  | succ limit ih =>
    unfold receiveAll
    split
    · exact .refl
    · next received hreceive =>
      have hprint : ReflTransGen Meanwhile received (received.print?.getD received) := by
        cases h : received.print? with
        | none => exact .refl
        | some printed => exact .single (.print h)
      have hrelease (printed : Session) :
          ReflTransGen Meanwhile printed (printed.release?.getD printed) := by
        cases h : printed.release? with
        | none => exact .refl
        | some released => exact .single (.release h)
      exact (ReflTransGen.head (.receive hreceive) hprint).trans ((hrelease _).trans (ih _))

/-- All that an exchange does to the session are steps of others. -/
theorem Dialogue.meanwhile_exchange (peer : Peer σ) (bs : List UInt8) (d : Dialogue σ) :
    ReflTransGen Meanwhile d.session (Dialogue.exchange peer bs d).session := by
  unfold Dialogue.exchange
  split
  · exact Session.meanwhile_receiveAll _ _
  · exact (Session.meanwhile_deliveries _ _).trans (Session.meanwhile_receiveAll _ _)

theorem Dialogue.exchange_same (peer : Peer σ) (bs : List UInt8) (d : Dialogue σ) :
    (Dialogue.exchange peer bs d).continuing = d.continuing ∧
      (Dialogue.exchange peer bs d).prompts = d.prompts := by
  unfold Dialogue.exchange
  split <;> exact ⟨rfl, rfl⟩

theorem Session.Holds.others (hs : s.Holds w draft continuing) (h : ReflTransGen Meanwhile s next) :
    next.Holds w draft continuing ∧ next.hostCapacity = s.hostCapacity := by
  induction h with
  | refl => exact ⟨hs, rfl⟩
  | tail _ hlast ih => exact ⟨ih.1.meanwhile hlast, hlast.same.2.2.1.trans ih.2⟩

/-! ## One entry -/

/-- A line is refused for its length or because the connection is closed, or is sent and stays open
if it is incomplete. -/
theorem Session.submit_eq (s : Session) {line : String} (hk : LineKind.of line = .command) :
    s.submit line none =
      if s.hostCapacity < Text.octetCount (continued s.pending line) then
        (.failed (.tooLarge (Text.octetCount (continued s.pending line)) s.hostCapacity), s)
      else if s.lock = .closed then (.failed .closed, s)
      else
        (.sent (decide (leftOpen (continued s.pending line) ≠ "")),
          { s with
            lock := .busy
            pending := leftOpen (continued s.pending line)
            submission := .none
            written := s.written ++ [Text.encode (continued s.pending line)] }) := by
  have hne := continued_ne_empty s.pending hk
  have hj : s.joined line = continued s.pending line := rfl
  by_cases hlong : s.hostCapacity < Text.octetCount (continued s.pending line)
  · simp only [submit, start_eq, if_pos hlong]
  by_cases hl : s.lock = .closed
  · simp only [submit, start_eq, if_neg hlong, take, if_pos hl]
  · have hsettle (t : Session) : t.settle (continued s.pending line) = _ :=
      t.settleWith_continuation? hne
    simp only [submit, start_eq, if_neg hlong, take, if_neg hl, hj, hsettle, write]

/-- A dialogue is where a draft is. -/
structure Dialogue.Follows (d : Dialogue σ) (c : Nat) (w : List (List UInt8)) (draft : Draft) :
    Prop where
  /-- How much the host receives at once. -/
  capacity : d.session.hostCapacity = c
  /-- The prompt and the session keep what the draft says. -/
  holds : d.session.Holds w draft d.continuing
  /-- The draft is one of lines that were entered. -/
  proper : draft.Proper

theorem Dialogue.follows_new (hs : s.pending = "") (other : σ) :
    (Dialogue.new s other).Follows s.hostCapacity s.written .empty :=
  ⟨rfl, Session.holds_empty hs, Draft.proper_empty⟩

theorem Dialogue.Follows.exchange (hd : d.Follows c w draft) (peer : Peer σ) (bs : List UInt8) :
    (Dialogue.exchange peer bs d).Follows c w draft := by
  obtain ⟨hholds, hcapacity⟩ := hd.holds.others (Dialogue.meanwhile_exchange peer bs d)
  refine ⟨hcapacity.trans hd.capacity, ?_, hd.proper⟩
  rw [(Dialogue.exchange_same peer bs d).1]
  exact hholds

theorem Dialogue.Follows.enter {line : String} {next : Dialogue σ} (hd : d.Follows c w draft)
    (hk : LineKind.of line = .command) (h : d.enter peer line = (none, next)) :
    next.Follows c w (draft.read c (.line line)) := by
  have htext := hd.holds.continued_eq hd.proper line
  simp only [Dialogue.enter, Session.submit_eq _ hk, htext, hd.capacity] at h
  by_cases hlong : c < Text.octetCount (draft.textWith line)
  · simp only [if_pos hlong] at h
    cases h
    rw [Draft.read_of_long hk hlong]
    exact ⟨hd.capacity, hd.holds, hd.proper⟩
  by_cases hl : d.session.lock = .closed
  · simp [hlong, hl] at h
  · simp only [if_neg hlong, if_neg hl] at h
    obtain ⟨-, rfl⟩ := Prod.mk.inj h
    rw [Draft.read_of_fits hk hlong]
    refine Follows.exchange ⟨rfl, ⟨?_, ?_, ?_⟩, hd.proper.send hk⟩ peer _
    · exact (Draft.text_send _ _).symm
    · exact congrArg (fun text => decide (text ≠ "")) (Draft.text_send _ _).symm
    · exact hd.holds.written_send line

/-- An entry that does not end the dialogue leads it to where the draft goes. -/
theorem Dialogue.Follows.read {e : Entry} {next : Dialogue σ} (hd : d.Follows c w draft)
    (h : d.read peer e = (none, next)) : next.Follows c w (draft.read c e) := by
  cases e with
  | interrupt =>
    cases h
    have hwritten : ({ d with session := d.session.writeSentinel .interrupt } :
        Dialogue σ).Follows c w draft :=
      ⟨hd.capacity, hd.holds.meanwhile .interrupt, hd.proper⟩
    have hexchanged := hwritten.exchange peer Wire.Sentinel.interrupt.octets
    exact ⟨hexchanged.capacity, hexchanged.holds.clearPending, hd.proper.read c .interrupt⟩
  | line line =>
    rw [Dialogue.read_line] at h
    by_cases hk : LineKind.of line = .command
    · rw [hk] at h
      exact hd.enter hk h
    · rw [Draft.read_of_ne_command hk]
      cases hother : LineKind.of line with
      | blank =>
        rw [hother] at h
        cases h
        exact hd
      | quit =>
        rw [hother] at h
        cases h
      | command => exact absurd hother hk

/-- Reading shows no prompt, and ends a dialogue for another reason than that nothing is left. -/
theorem Dialogue.read_same (peer : Peer σ) (e : Entry) (d : Dialogue σ) :
    (d.read peer e).2.prompts = d.prompts ∧ (d.read peer e).1 ≠ some .endOfInput := by
  cases e with
  | interrupt => exact ⟨(Dialogue.exchange_same _ _ _).2, nofun⟩
  | line line =>
    rw [Dialogue.read_line]
    rcases hk : LineKind.of line with _ | _ | _
    · exact ⟨rfl, nofun⟩
    · exact ⟨rfl, nofun⟩
    · simp only [Dialogue.enter, Session.submit_eq _ hk]
      by_cases hlong : d.session.hostCapacity <
          Text.octetCount (continued d.session.pending line)
      · simp [hlong]
      by_cases hl : d.session.lock = .closed
      · simp [hlong, hl]
      · simp only [if_neg hlong, if_neg hl]
        refine ⟨(Dialogue.exchange_same _ _ _).2, ?_⟩
        split <;> simp

/-! ## All entries -/

theorem Dialogue.Follows.prompts_showPrompt (hd : d.Follows c w draft) :
    d.showPrompt.prompts = d.prompts ++ [if draft.lines ≠ [] then openPrompt else freshPrompt] := by
  simp only [Dialogue.showPrompt, hd.holds.continuing, decide_eq_true_eq, ne_eq,
    hd.proper.text_eq_empty_iff]

theorem Dialogue.Follows.prompts_run (hd : d.Follows c w draft) (peer : Peer σ)
    (entries : List Entry) :
    ∃ shown, (Dialogue.run peer entries d).2.prompts = d.prompts ++ shown ∧
      shown <+: draft.prompts c entries ∧
      ((Dialogue.run peer entries d).1 = .endOfInput → shown = draft.prompts c entries) := by
  induction entries generalizing d draft with
  | nil => exact ⟨_, hd.prompts_showPrompt, List.prefix_rfl, fun _ => rfl⟩
  | cons e rest ih =>
    have hshown : d.showPrompt.Follows c w draft := { hd with }
    obtain ⟨hprompts, hends⟩ := Dialogue.read_same peer e d.showPrompt
    simp only [Dialogue.run, Draft.prompts]
    rcases hread : d.showPrompt.read peer e with ⟨_ | exit, next⟩
    · rw [hread, hd.prompts_showPrompt] at hprompts
      obtain ⟨shown, hrun, hinitial, hall⟩ := ih (hshown.read hread)
      refine ⟨_ :: shown, ?_, List.cons_prefix_cons.2 ⟨rfl, hinitial⟩, fun hend => ?_⟩
      · rw [List.append_cons, ← hprompts]
        exact hrun
      · rw [hall hend]
    · rw [hread] at hprompts hends
      refine ⟨_, hprompts.trans hd.prompts_showPrompt, ?_, fun hend => ?_⟩
      · exact List.cons_prefix_cons.2 ⟨rfl, List.nil_prefix⟩
      · exact absurd (congrArg some hend) hends

/-- The prompts that a dialogue shows over a session without an open statement are those that the
entries lead to, in order, and all of them if it ends because nothing is left to read. -/
theorem Dialogue.prompts_run (hs : s.pending = "") (peer : Peer σ) (other : σ)
    (entries : List Entry) :
    (Dialogue.run peer entries (.new s other)).2.prompts <+:
        Draft.empty.prompts s.hostCapacity entries ∧
      ((Dialogue.run peer entries (.new s other)).1 = .endOfInput →
        (Dialogue.run peer entries (.new s other)).2.prompts =
          Draft.empty.prompts s.hostCapacity entries) := by
  obtain ⟨shown, hrun, hinitial, hall⟩ := (Dialogue.follows_new hs other).prompts_run peer entries
  obtain rfl : _ = shown := hrun.trans (List.nil_append shown)
  exact ⟨hinitial, hall⟩

/-- The prompts of a list over two lines : a blank line and one that is too long change nothing. -/
example : Draft.empty.prompts 8 (["[1,", " ", "far too long", "2]"].map .line) =
    [freshPrompt, openPrompt, openPrompt, openPrompt, freshPrompt] := by
  decide +kernel

end RemoteEval.Shell
