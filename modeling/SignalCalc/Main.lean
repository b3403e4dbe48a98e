import SignalCalc.Shell.Run

/-!
# The calculator as a program

Reads and writes what `SignalCalc.Shell` decides.
-/

namespace SignalCalc

open SignalCalc.Shell

/-- Writes to the standard output and the standard error. -/
def emit (console : Console) : IO Unit := do
  let out ← IO.getStdout
  out.putStr console.out
  out.flush
  let err ← IO.getStderr
  err.putStr console.err

/-- Asks for lines until the user leaves. -/
partial def converseLoop (session : Session) : IO Unit := do
  emit (Console.silent.print promptText)
  let line ← (← IO.getStdin).getLine
  if line.isEmpty then
    emit (Console.silent.print farewellText)
  else
    match turn session line with
    | .leave => pure ()
    | .stay after written =>
      emit written
      converseLoop after

/-- Runs a script file, and writes the sound file that was asked for. -/
def runFile (path : String) (wavePath : Option String) (seconds : Float) : IO UInt32 := do
  let bytes? ← try
      some <$> IO.FS.readBinFile path
    catch
      | .noFileOrDirectory .. => pure none
      | e => throw e
  let some bytes := bytes?
    | emit (Console.silent.errorLine (missingText path))
      return 1
  let some text := Text.decode? bytes
    | throw (.userError "the script is not UTF-8 text")
  let (console, failed, rendering) := runScript text wavePath.isSome seconds
  let outcome := finishScript ⟨[]⟩ (wavePath.map fun _ => "file") failed .silent rendering
  emit console
  match rendering, wavePath, outcome.ending with
  | .file count bytes, some wavePath, .exit code =>
    IO.FS.writeBinFile wavePath bytes
    emit (Console.silent.printLine (writtenText count wavePath))
    return UInt32.ofNat code
  | _, _, .exit code =>
    emit outcome.console
    return UInt32.ofNat code
  | _, _, .brokenOff _ => throw (.userError "the sound cannot be rendered")

end SignalCalc

open SignalCalc SignalCalc.Shell in
/-- The calculator. -/
def main (args : List String) : IO UInt32 := do
  match Command.ofArguments args with
  | .usage =>
    emit (Console.silent.printLine usageText)
    return 0
  | .badSeconds =>
    emit (Console.silent.errorLine usageText)
    return 2
  | .interactive =>
    emit (Console.silent.print bannerText)
    converseLoop Session.fresh
    return 0
  | .script path wavePath seconds => runFile path wavePath seconds
