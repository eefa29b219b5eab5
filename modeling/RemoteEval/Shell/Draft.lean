import RemoteEval.Shell.Attempt
import RemoteEval.Shell.Transcript

/-!
# A prompt among everything that can happen

A prompt reads, goes on with what it submits, and is let go on. Meanwhile others change its session,
and the other side does what it likes. `Bridge.Happens` is one such step, with the shadow that the
prompt asks, and `Bridge.Goes` are some of them in a row.

What the entries that a prompt has read amount to is said without steps : the lines of the statement
that is still open, and the texts that were sent (`Draft`).
-/

namespace RemoteEval.Shell

/-! ## What entries amount to -/

/-- A statement that is entered line by line. -/
structure Draft where
  /-- The lines that are still open. -/
  lines : List String
  /-- The texts that were sent. -/
  sent : List String
deriving DecidableEq, Repr

namespace Draft

/-- Nothing was entered. -/
def empty : Draft := ⟨[], []⟩

/-- The text of the lines that are still open. -/
def text (d : Draft) : String := "\n".intercalate d.lines

/-- The text of a line and of the lines before it. -/
def textWith (d : Draft) (line : String) : String := "\n".intercalate (d.lines ++ [line])

/-- A line is sent with the lines before it. They stay open while they can be continued, and no
longer once they are complete or were rejected. -/
def send (d : Draft) (line : String) : Draft where
  lines :=
    match Script.parse (d.textWith line).toList with
    | .error .incomplete => d.lines ++ [line]
    | _ => []
  sent := d.sent ++ [d.textWith line]

/-- An entry is read. A blank line is passed over, one that makes too long a text is not sent, and
an interrupt drops the lines that are open. -/
def read (capacity : Nat) (d : Draft) : Entry → Draft
  | .interrupt => { d with lines := [] }
  | .line line =>
    match LineKind.of line with
    | .command => if capacity < Text.octetCount (d.textWith line) then d else d.send line
    | _ => d

/-- What entries amount to that were read one after another. -/
def of (capacity : Nat) (entries : List Entry) : Draft :=
  entries.foldl (read capacity) empty

/-- The prompts at which entries are read, and the one behind them. -/
def prompts (capacity : Nat) : (d : Draft) → List Entry → List String
  | d, [] => [if d.lines ≠ [] then openPrompt else freshPrompt]
  | d, e :: rest =>
    (if d.lines ≠ [] then openPrompt else freshPrompt) :: prompts capacity (d.read capacity e) rest

end Draft

/-- What was written apart from interrupts. -/
def withoutInterrupts (written : List (List UInt8)) : List (List UInt8) :=
  written.filter (· ≠ Wire.Sentinel.interrupt.octets)

/-! ## What can happen -/

namespace Bridge

variable {σ : Type}

/-- Something happens to a prompt, its session, its shadow or the other side. -/
inductive Happens (ask : Shadow σ) (b : Bridge) (m : σ) : Bridge → σ → Prop
  | read (hp : b.phase = .reading) : Happens ask b m b.read m
  /-- An interrupt is read, and the stream fails. -/
  | lose {rest : List Entry} (hp : b.phase = .reading) (he : b.entries = .interrupt :: rest) :
      Happens ask b m { b.read with session := b.session.clearPending } m
  | submit {actor : Actor} {outcome : Option Submitted} {s : Session} {m' : σ}
      (hp : b.phase = .submitting) (h : b.session.Advances ask m actor outcome s m') :
      Happens ask b m (b.proceed s outcome) m'
  | wake {next : Bridge} (h : b.act? .wake = some next) : Happens ask b m next m
  | meanwhile {s : Session} (h : b.session.Meanwhile s) :
      Happens ask b m { b with session := s } m
  | host (h : Host) : Happens ask b m { b with other := h } m

/-- Some things happen one after another. -/
inductive Goes (ask : Shadow σ) (b : Bridge) (m : σ) : Bridge → σ → Prop
  | refl : Goes ask b m b m
  | tail {mid next : Bridge} {mid' m' : σ} (h : Goes ask b m mid mid')
      (hlast : mid.Happens ask mid' next m') : Goes ask b m next m'

/-- A prompt is about to read, over a session without an open statement. -/
structure IsFresh (b : Bridge) : Prop where
  /-- It is about to read. -/
  phase : b.phase = .reading
  /-- It takes no statement for open. -/
  continuing : b.continuing = false
  /-- Nothing is submitted. -/
  submission : b.session.submission = .none
  /-- No statement is open. -/
  pending : b.session.pending = ""

/-- The prompt and the session agree about the statement that is open : the prompt of an open
statement is shown if and only if there is one, and it is the lines of a draft, which are
incomplete. -/
structure InStep (b : Bridge) (d : Draft) : Prop where
  /-- The prompt that is shown when it reads. -/
  prompt : b.read.prompts =
    b.prompts ++ [if b.session.pending ≠ "" then openPrompt else freshPrompt]
  /-- What is open can be continued. -/
  incomplete : b.session.pending ≠ "" →
    Script.parse b.session.pending.toList = .error .incomplete
  /-- What is open are the lines of the draft. -/
  pending : b.session.pending = d.text
  /-- Something is open if the draft has lines. -/
  open_iff : b.session.pending ≠ "" ↔ d.lines ≠ []

end Bridge

end RemoteEval.Shell
