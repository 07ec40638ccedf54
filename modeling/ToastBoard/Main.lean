import ToastBoard.CommandLine

/-!
# The program

Reads the arguments, the environment and the nearest `.env` file, and writes what comes of them.
The end of the standard input stands for the interrupt.
-/

namespace ToastBoard

namespace Program

/-- The nearest `.env` file, in the working directory or above it. -/
def nearestDotEnv : IO DotEnvFile := do
  let mut dir := some (← IO.currentDir)
  while dir.isSome do
    match dir with
    | none => pure ()
    | some d =>
      try
        return .contents (← IO.FS.readBinFile (d / ".env"))
      catch _ => dir := d.parent
  return .absent

/-- The variables that matter. -/
def environment : IO Environment := do
  let mut entries := []
  for name in [Settings.testProfileVariable, Settings.appUserModelIdVariable] do
    match ← IO.getEnv name with
    | some value => entries := entries ++ [(name, value.toUTF8)]
    | none => pure ()
  return ⟨entries⟩

/-- Waits for the end of the standard input. -/
partial def waitForEnd (input : IO.FS.Stream) : IO Unit := do
  if (← input.getLine).isEmpty then pure () else waitForEnd input

/-- Writes a transcript. -/
def write (t : Transcript) : IO Unit := do
  let out ← IO.getStdout
  match t with
  | .done output => out.putStr output
  | .waits before after =>
    out.putStr before
    out.flush
    waitForEnd (← IO.getStdin)
    out.putStr after
  | .refused _ | .panicked => IO.eprintln (t.complaintLine.getD "")

end Program

end ToastBoard

/-- Runs the program. -/
def main (args : List String) : IO UInt32 := do
  let transcript := ToastBoard.Invocation.run args (← ToastBoard.Program.nearestDotEnv)
    (← ToastBoard.Program.environment)
  ToastBoard.Program.write transcript
  return transcript.exitCode.toUInt32
