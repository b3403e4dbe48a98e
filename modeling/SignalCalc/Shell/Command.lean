import SignalCalc.Shell.Console
import SignalCalc.Render.Wave

/-!
# Commands

The command line names a script, a sound file for its last value, and the length of that file.
Without arguments the calculator is interactive.
-/

namespace SignalCalc.Shell

/-- What the arguments ask for. -/
inductive Command where
  | usage
  /-- The length of the sound file is no number. -/
  | badSeconds
  | interactive
  | script (path : String) (wavePath : Option String) (seconds : Float)

/-- The line that explains the arguments. -/
def usageText : String := "usage: sonus.py [SCRIPT [OUT.wav [SECONDS]]]"

/-- The length of a sound file in seconds unless another is asked for. -/
def defaultSeconds : Float := 1.0

/-- Reads the arguments. -/
def Command.ofArguments : List String → Command
  | [] => interactive
  | first :: rest =>
    if first == "-h" || first == "--help" || rest.length > 2 then usage
    else match rest with
      | [] => script first none defaultSeconds
      | [wavePath] => script first (some wavePath) defaultSeconds
      | wavePath :: seconds :: _ =>
        match Number.readReal? seconds with
        | some x => script first (some wavePath) x
        | none => badSeconds

/-- The text of a script file: every line end becomes a line feed. -/
def withLineFeeds : List Char → List Char
  | [] => []
  | '\r' :: '\n' :: rest => '\n' :: withLineFeeds rest
  | '\r' :: rest => '\n' :: withLineFeeds rest
  | c :: rest => c :: withLineFeeds rest

/-- What became of the sound file that was asked for. -/
inductive Rendering where
  | notAsked
  /-- There is no last value. -/
  | nothing
  | failed (e : Render.RenderError)
  | file (count : Nat) (bytes : ByteArray)

/-- The sound file of the last result. -/
def Rendering.ofLast (results : List Result) (seconds : Float) : Rendering :=
  match results.getLast? with
  | some (.value v) =>
    match Render.wave v Render.defaultRate seconds with
    | .ok (count, bytes) => file count bytes
    | .error e => failed e
  | _ => nothing

/-- Runs a script in a new session: what it writes, whether a statement failed, and the sound
file. -/
def runScript (text : String) (wantsFile : Bool) (seconds : Float) :
    Console × Bool × Rendering :=
  let source := String.ofList (withLineFeeds text.toList)
  let (results, _) := Session.fresh.handle source
  let rendering := if wantsFile then Rendering.ofLast results seconds else .notAsked
  (Console.silent.writeResults source results, anyFailed results, rendering)

/-- The line about a script that is not there. -/
def missingText (path : String) : String := "Error: file not found: " ++ path

/-- The line about a sound file without a value. -/
def nothingText : String := "Error: nothing to render"

/-- The line about a written sound file. -/
def writtenText (count : Nat) (path : String) : String :=
  "Wrote " ++ toString count ++ " samples to " ++ path

/-! ## The interactive calculator -/

/-- The lines that open an interactive run. -/
def bannerText : String := "Sonus REPL v0.1\nType 'exit' or press Ctrl+D to quit.\n"

/-- What asks for a line. -/
def promptText : String := ">> "

/-- What closes an interactive run at the end of the input. -/
def farewellText : String := "\nExiting.\n"

/-- What a typed line leads to. -/
inductive Turn where
  | leave
  | stay (session : Session) (written : Console)

/-- Runs a typed line, without the blanks around it. -/
def turn (session : Session) (line : String) : Turn :=
  let source := String.ofList (Text.trimmed Text.isTrimmed line.toList)
  if source.isEmpty then .stay session .silent
  else if source == "exit" then .leave
  else
    let (results, after) := session.handle source
    .stay after (Console.silent.writeResults source results)

end SignalCalc.Shell
