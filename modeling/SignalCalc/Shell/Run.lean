import SignalCalc.Shell.Command
import SignalCalc.Shell.Directory
import SignalCalc.Text.Utf8

/-!
# Runs

A whole run of the calculator as a function: from arguments, a directory and the lines that will
be typed to what is written, how it ends, and the directory afterwards.
-/

namespace SignalCalc.Shell

/-- Why a run breaks off. -/
inductive Breakdown where
  | path (e : PathError)
  /-- The script is no text. -/
  | notText
  | render (e : Render.RenderError)
  /-- The user stopped the run. -/
  | interrupted

/-- How a run ends. -/
inductive Ending where
  | exit (code : Nat)
  | brokenOff (why : Breakdown)

/-- What a run leaves behind. -/
structure Outcome where
  ending : Ending
  console : Console
  directory : Directory

/-- What will be typed. -/
structure Input where
  lines : List String
  /-- The user interrupts where the lines end; otherwise the input ends there. -/
  interrupts : Bool

/-- The lines of the standard input: a line feed ends a line, and a rest without one is a line
too. -/
def Input.linesOf (text : String) : List String :=
  let parts := text.splitOn "\n"
  if parts.getLast? == some "" then parts.dropLast else parts

/-- An interactive run.  An interrupt ends a program like the end of its input, and breaks off
the run inside another program. -/
def converse (asProgram interrupts : Bool) (directory : Directory) :
    Session → Console → List String → Outcome
  | _, console, [] =>
    let asked := console.print promptText
    if interrupts && !asProgram then ⟨.brokenOff .interrupted, asked, directory⟩
    else ⟨.exit 0, asked.print farewellText, directory⟩
  | session, console, line :: rest =>
    let asked := console.print promptText
    match turn session line with
    | .leave => ⟨.exit 0, asked, directory⟩
    | .stay after written =>
      converse asProgram interrupts directory after
        ⟨asked.out ++ written.out, asked.err ++ written.err⟩ rest

/-- The end of a script run, once its sound file is settled. -/
def finishScript (directory : Directory) (wavePath : Option String) (failed : Bool)
    (console : Console) : Rendering → Outcome
  | .notAsked => ⟨.exit (if failed then 1 else 0), console, directory⟩
  | .nothing => ⟨.exit 1, console.errorLine nothingText, directory⟩
  | .failed (.cause cause) =>
    if cause.isLanguageError then
      ⟨.exit 1, console.errorLine (cause.title ++ ": " ++ cause.message), directory⟩
    else ⟨.brokenOff (.render (.cause cause)), console, directory⟩
  | .failed e => ⟨.brokenOff (.render e), console, directory⟩
  | .file count bytes =>
    let path := wavePath.getD ""
    match directory.write path bytes with
    | .ok after =>
      ⟨.exit (if failed then 1 else 0), console.printLine (writtenText count path), after⟩
    | .error e => ⟨.brokenOff (.path e), console, directory⟩

/-- A run of a script. -/
def runPath (directory : Directory) (path : String) (wavePath : Option String)
    (seconds : Float) : Outcome :=
  match directory.read path with
  | .error .missing => ⟨.exit 1, Console.silent.errorLine (missingText path), directory⟩
  | .error e => ⟨.brokenOff (.path e), .silent, directory⟩
  | .ok bytes =>
    match Text.decode? bytes with
    | none => ⟨.brokenOff .notText, .silent, directory⟩
    | some text =>
      let (console, failed, rendering) := runScript text wavePath.isSome seconds
      finishScript directory wavePath failed console rendering

/-- A run of the calculator. -/
def run (arguments : List String) (directory : Directory) (input : Input) (asProgram : Bool) :
    Outcome :=
  match Command.ofArguments arguments with
  | .usage => ⟨.exit 0, Console.silent.printLine usageText, directory⟩
  | .badSeconds => ⟨.exit 2, Console.silent.errorLine usageText, directory⟩
  | .interactive =>
    converse asProgram input.interrupts directory Session.fresh
      (Console.silent.print bannerText) input.lines
  | .script path wavePath seconds => runPath directory path wavePath seconds

end SignalCalc.Shell
