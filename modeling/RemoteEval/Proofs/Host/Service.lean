import RemoteEval.Proofs.Host.Conservation

/-!
# A host that serves one connection by itself

Such a host reads a text, evaluates it to its reply and sends all of the answer before anything else
arrives (`hear_text`).
-/

namespace RemoteEval.Host

open Script (Memory)
open Wire (IsPlain)

variable (handles : List Resource.Handle) (m : Memory)

/-- A host with a single connection. -/
def single (handles : List Resource.Handle) (m : Memory) (c : Connection) : Host :=
  ⟨handles, m, [c]⟩

/-- A connection on which nothing is left to do. -/
def Connection.idle (sent : List (List UInt8)) : Connection :=
  ⟨[], [], .free, [], sent⟩

@[simp]
theorem connection_single (c : Connection) : (single handles m c).connection 0 = c := rfl

@[simp]
theorem put_single (c d : Connection) : (single handles m c).put 0 d = single handles m d := rfl

theorem repeatMove_print (c : Connection) (diagnostics : List (List UInt8)) (reply : List UInt8) :
    repeatMove (.print 0) diagnostics.length
        (single handles m { c with worker := .evaluating diagnostics reply }) =
      single handles m
        { c with worker := .evaluating [] reply, outgoing := c.outgoing ++ diagnostics } := by
  induction diagnostics generalizing c with
  | nil => simp [repeatMove]
  | cons d rest ih =>
    have hstep : (single handles m { c with worker := .evaluating (d :: rest) reply }).step?
        (.print 0) =
          some (single handles m
            { c with worker := .evaluating rest reply, outgoing := c.outgoing ++ [d] }) := rfl
    rw [List.length_cons, repeatMove, hstep]
    simp only
    rw [ih { c with outgoing := c.outgoing ++ [d] }]
    simp

theorem repeatMove_write (c : Connection) (payloads : List (List UInt8)) :
    repeatMove (.write 0) payloads.length (single handles m { c with outgoing := payloads }) =
      single handles m { c with outgoing := [], sent := c.sent ++ payloads } := by
  induction payloads generalizing c with
  | nil => simp [repeatMove]
  | cons p rest ih =>
    have hstep : (single handles m { c with outgoing := p :: rest }).step? (.write 0) =
        some (single handles m { c with outgoing := rest, sent := c.sent ++ [p] }) := rfl
    rw [List.length_cons, repeatMove, hstep]
    simp only
    rw [ih { c with sent := c.sent ++ [p] }]
    simp

theorem repeatMove_once {move : Move} {h next : Host} (hstep : h.step? move = some next) :
    repeatMove move 1 h = next := by
  rw [repeatMove, hstep]
  rfl

theorem workOnce_single (sent : List (List UInt8)) (t : String) :
    workOnce .quiet 0 (single handles m { Connection.idle sent with commands := [t] }) =
      single handles (respond .quiet t m).memory
        { Connection.idle sent with outgoing := (respond .quiet t m).payloads } := by
  generalize hr : respond .quiet t m = r
  have hbegin : (single handles m { Connection.idle sent with commands := [t] }).step?
      (.begin 0 .quiet) = some (single handles r.memory { Connection.idle sent with
        worker := .evaluating (r.diagnostics.map Text.encode) r.reply }) := by
    rw [← hr]
    rfl
  have hprint := repeatMove_print handles r.memory (Connection.idle sent)
    (r.diagnostics.map Text.encode) r.reply
  simp only [workOnce, repeatMove_once hbegin, unprinted, connection_single]
  rw [hprint, repeatMove_once rfl, repeatMove_once rfl]
  rfl

/-- A text is answered with the payloads of its response. -/
theorem hear_text {capacity : Nat} {t : String} (hne : t ≠ "")
    (hle : Text.octetCount t ≤ capacity) (hp : IsPlain t) (sent : List (List UInt8)) :
    hear capacity .quiet 0 (Text.encode t) (single handles m (.idle sent)) =
      ((respond .quiet t m).payloads,
        single handles (respond .quiet t m).memory
          (.idle (sent ++ (respond .quiet t m).payloads))) := by
  have hframes := Wire.frames_encode hne hle
  have harrive : arrive capacity 0 (Text.encode t) (single handles m (.idle sent)) =
      single handles m { Connection.idle sent with incoming := [Text.encode t] } := by
    rw [arrive, connection_single, put_single, hframes]
    rfl
  have hread : (single handles m { Connection.idle sent with incoming := [Text.encode t] }).step?
      (.read 0) = some (single handles m { Connection.idle sent with commands := [t] }) := by
    have hstep : (single handles m { Connection.idle sent with incoming := [Text.encode t] }).step?
        (.read 0) = some ((single handles m { Connection.idle sent with
          incoming := [Text.encode t] }).receive 0 (Connection.idle sent) (Text.encode t)) := rfl
    rw [hstep, Host.receive, Wire.Frame.classify_encode hp]
    rfl
  have hwrite := repeatMove_write handles (respond .quiet t m).memory (Connection.idle sent)
    (respond .quiet t m).payloads
  have hserve : serve .quiet 0
      (single handles m { Connection.idle sent with incoming := [Text.encode t] }) =
        single handles (respond .quiet t m).memory
          (.idle (sent ++ (respond .quiet t m).payloads)) := by
    simp only [serve, connection_single, List.length_singleton, repeatMove_once hread, work,
      workOnce_single]
    exact hwrite
  simp only [hear, harrive, hserve, connection_single]
  simp [Connection.idle]

end RemoteEval.Host
