import SignalCalc.Value.Basic

/-!
# What every session starts with

The built-in functions, the constants, and a short program in the language itself that is run
before anything else.  Errors may point into that program, so its lines and columns are part of
what a session shows.
-/

namespace SignalCalc.Session

open SignalCalc.Builtin

/-- The names that are bound before any program runs. -/
def builtins : List (String × Value) :=
  Constructor.all.map (fun c => (c.name, .function (.constructor c))) ++
    RealFunction.all.map (fun f => (f.name, .function (.real f))) ++
    [("PI", .real 3.141592653589793), ("E", .real 2.718281828459045),
     ("true", .bool true), ("false", .bool false)]

/-- The definitions of the prelude: a full turn, a square, a struck tone, a changing loudness
and a delay. -/
def prelude : String :=
  "\n".intercalate
    ["// Definitions evaluated into every root environment after the built-ins.",
     "",
     "TAU = 2 * PI",
     "",
     "sq(x) = x * x",
     "",
     "/* A struck tone: a sine decaying by a factor of e every tau seconds. */",
     "Beep(frequency, tau) = Sin(frequency) * Exp(tau)",
     "",
     "// Amplitude modulation around 1 - depth; depth 0 leaves s unchanged.",
     "Tremolo(s, rate, depth) = s * (1 - depth + depth * Sin(rate))",
     "",
     "// s delayed: Delay(s, d) at time t is s at time t - d.",
     "Delay(s, seconds) = shift(s, -seconds)",
     ""]

end SignalCalc.Session
