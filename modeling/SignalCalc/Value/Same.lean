import SignalCalc.Value.Numeric

/-!
# Equality of values

Values from anywhere can be compared: numbers by their exact value, whatever their form, with
the truth values as one and zero; strings by their text; sounds as trees; functions by which
function they are.
-/

namespace SignalCalc

open SignalCalc.Signal

/-- The exact equality of a whole number and a float. -/
def Value.wholeIs (n : Int) (x : Float) : Bool := compareWhole n x == some .eq

mutual
/-- Equality of sounds as trees, with the numbers in them compared as numbers. -/
def Signal.Sound.same : Sound Float → Sound Float → Bool
  | .const a, .const b => a == b
  | .linear a b, .linear a' b' => a == a' && b == b'
  | .sine a b, .sine a' b' => a == a' && b == b'
  | .decay a b, .decay a' b' => a == a' && b == b'
  | .noise seed, .noise seed' => seed == seed'
  | .minus s, .minus s' => s.same s'
  | .reciprocal s, .reciprocal s' => s.same s'
  | .binary op l r, .binary op' l' r' => op == op' && l.same l' && r.same r'
  | .apply f args, .apply f' args' => f == f' && Signal.Sound.sameArguments args args'
  | _, _ => false

/-- Equality of rows of arguments: the same names in the same places, and equal values. -/
def Signal.Sound.sameArguments : List (Argument Float) → List (Argument Float) → Bool
  | [], [] => true
  | .real l x :: as, .real l' x' :: bs => l == l' && x == x' && sameArguments as bs
  | .whole l n :: as, .whole l' n' :: bs => l == l' && n == n' && sameArguments as bs
  | .real l x :: as, .whole l' n :: bs => l == l' && Value.wholeIs n x && sameArguments as bs
  | .whole l n :: as, .real l' x :: bs => l == l' && Value.wholeIs n x && sameArguments as bs
  | .sound l s :: as, .sound l' s' :: bs => l == l' && s.same s' && sameArguments as bs
  | _, _ => false
end

/-- Equality of functions: built-in ones by name, others by the definition that made them. -/
def Function.same : Function → Function → Bool
  | .real f, .real g => f == g
  | .constructor c, .constructor d => c == d
  | .user f, .user g => f.serial == g.serial
  | _, _ => false

namespace Value

/-- A truth value as a number. -/
def bit (b : Bool) : Int := if b then 1 else 0

mutual
/-- Equality of values. -/
def same : Value → Value → Bool
  | real a, real b => a == b
  | whole a, whole b => a == b
  | whole a, real b => wholeIs a b
  | real a, whole b => wholeIs b a
  | bool a, bool b => a == b
  | bool a, whole b => bit a == b
  | whole a, bool b => a == bit b
  | bool a, real b => wholeIs (bit a) b
  | real a, bool b => wholeIs (bit b) a
  | string a, string b => a == b
  | sound a, sound b => a.same b
  | function a, function b => a.same b
  | nothing, nothing => true
  | list as, list bs => sameAll as bs
  | _, _ => false

/-- Equality of lists, value by value. -/
def sameAll : List Value → List Value → Bool
  | [], [] => true
  | a :: as, b :: bs => a.same b && sameAll as bs
  | _, _ => false
end

end Value

end SignalCalc
