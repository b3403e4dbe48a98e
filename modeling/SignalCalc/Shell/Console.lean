import SignalCalc.Session.Report

/-!
# The console

What a run writes: values to the standard output, errors to the standard error.
-/

namespace SignalCalc.Shell

/-- The text written so far. -/
structure Console where
  out : String := ""
  err : String := ""
  deriving DecidableEq, Repr

namespace Console

/-- Nothing written. -/
def silent : Console := ⟨"", ""⟩

/-- Text on the standard output. -/
def print (text : String) (c : Console) : Console := ⟨c.out ++ text, c.err⟩

/-- A line on the standard output. -/
def printLine (text : String) (c : Console) : Console := ⟨c.out ++ text ++ "\n", c.err⟩

/-- A line on the standard error. -/
def errorLine (text : String) (c : Console) : Console := ⟨c.out, c.err ++ text ++ "\n"⟩

/-- The report of a result.  A statement without a value writes nothing. -/
def writeReport (c : Console) : Report → Console
  | .value .nothing _ => c
  | .value _ text => c.printLine text
  | report => c.errorLine report.errorText

/-- Results of a source text, each with its report; a result that has none writes nothing. -/
def writeResults (c : Console) (source : String) (results : List Result) : Console :=
  results.foldl
    (fun c result =>
      match Report.ofResult source result with
      | .ok report => c.writeReport report
      | .error _ => c)
    c

end Console

/-- A statement of a source text failed, or the text is no program. -/
def anyFailed (results : List Result) : Bool :=
  results.any fun | .value _ => false | _ => true

end SignalCalc.Shell
