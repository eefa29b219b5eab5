import RemoteEval.Shell.Prompt

/-!
# A prompt at the terminal

Reads lines from standard input and submits them to a host of its own, so that scripts can be
tried without a network. Prompts and what the receiver prints go to standard output.
-/

open RemoteEval RemoteEval.Shell

/-- Show the prompt, read a line and print what it leads to, until the prompt ends. -/
partial def converse (peer : Peer Host) (d : Dialogue Host) : IO Unit := do
  let d := d.showPrompt
  IO.print (d.prompts.getLast?.getD "")
  (← IO.getStdout).flush
  let line ← (← IO.getStdin).getLine
  if line.isEmpty then return
  let text := String.ofList (line.toList.filter fun c => c ≠ '\n' && c ≠ '\r')
  let before := d.session.printed.length
  let (exit, d) := d.read peer (.line text)
  IO.print (Text.decode (d.session.printed.drop before))
  match exit with
  | some _ => return
  | none => converse peer d

/-- Connect a session to a host of its own and run the prompt. -/
def main : IO Unit := do
  let settings := Config.ShellSettings.standard
  let (i, host) := (Host.new [] .empty).connect
  let session := (Session.ofSettings settings).startReceiver
  converse (Peer.ofHost settings.hostCapacity.toNat i) (Dialogue.new session host)
