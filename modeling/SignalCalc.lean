import SignalCalc.Main
import SignalCalc.Syntax.Sketch
import SignalCalc.Value.Binding
import SignalCalc.Evaluation.Direct
import SignalCalc.Proofs.Signal.AtTime
import SignalCalc.Proofs.Evaluation.Sampling
import SignalCalc.Proofs.Evaluation.Shifting
import SignalCalc.Proofs.Syntax.Spelling
import SignalCalc.Proofs.Printing.Heard
import SignalCalc.Proofs.Syntax.Parsed
import SignalCalc.Proofs.Syntax.Comments
import SignalCalc.Proofs.Session.Atomic
import SignalCalc.Proofs.Syntax.Joined
import SignalCalc.Proofs.Session.Layout
import SignalCalc.Proofs.Session.Whole
import SignalCalc.Proofs.Session.Pointing
import SignalCalc.Proofs.Evaluation.Passing
import SignalCalc.Proofs.Render.ReadBack
import SignalCalc.Proofs.Session.Independent
import SignalCalc.Proofs.Session.Substituted
import SignalCalc.Proofs.Evaluation.Pending
import SignalCalc.Proofs.Evaluation.Innermost
import SignalCalc.Proofs.Syntax.Leftover
import SignalCalc.Proofs.Session.Scalars
import SignalCalc.Proofs.Signal.Composed
import SignalCalc.Proofs.Number.Standard
import SignalCalc.Proofs.Session.Unmoved
