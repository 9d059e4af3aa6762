import WorkflowLint.Server.Rpc

/-! The language server on standard input and output. -/
namespace WorkflowLint

/-- Reads the lines of a header up to the empty one, and gives the length that it names; nothing at
the end of the input. -/
partial def readHeader (input : IO.FS.Stream) (length : Nat) : IO (Option Nat) := do
  let line ← input.getLine
  if line.isEmpty then return none
  if Text.isBlankText line.toList then return some length
  readHeader input ((Server.contentLength? line).getD length)

partial def readBody (input : IO.FS.Stream) (size : Nat) (soFar : ByteArray) : IO ByteArray := do
  if size ≤ soFar.size then return soFar
  let more ← input.read (size - soFar.size).toUSize
  if more.isEmpty then return soFar
  readBody input size (soFar ++ more)

partial def serve (input output : IO.FS.Stream) (state : Server.State) : IO Unit := do
  match ← readHeader input 0 with
  | none => return
  | some size =>
    let body ← readBody input size .empty
    match Server.Incoming.ofText ((String.fromUTF8? body).getD "") with
    | .exit => return
    | message =>
      let (state, replies) := state.receive message
      -- nothing is answered any more, not even what was found before
      if state.overflowed then throw (.userError Expr.overflowMessage)
      for reply in replies do
        output.putStr (Server.frame reply)
      output.flush
      serve input output state

end WorkflowLint

def main : IO Unit := do
  WorkflowLint.serve (← IO.getStdin) (← IO.getStdout) .initial
