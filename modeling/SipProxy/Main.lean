import SipProxy.Server.Rehearsal

/-!
# Command line

Rehearses a configuration: standard input is the conversation of a rehearsal, a document on each
line, and standard output its answers in the same order.
-/

namespace SipProxy

/-- Answers lines until there are no more. -/
partial def rehearse (input output : IO.FS.Stream) (state : Rehearsal) : IO Unit := do
  let line ← input.getLine
  if !line.isEmpty then
    let (state, answer) := state.step line
    output.putStrLn answer.print
    output.flush
    rehearse input output state

end SipProxy

def main : IO Unit := do
  SipProxy.rehearse (← IO.getStdin) (← IO.getStdout) .unconfigured
