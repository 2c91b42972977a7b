import DensityGraph.Special.Elementary
import DensityGraph.Special.Jet
/-!
# The gamma function

The logarithm of the absolute gamma function and its derivative, by moving the
argument up to ten and summing the asymptotic series there.
-/

namespace DensityGraph
namespace Special

def pi : Float := 3.141592653589793

def halfLogTwoPi : Float := 0.9189385332046728

def evenSeries (cs : List Float) (x : Float) : Float :=
  let y := 1.0 / (x * x)
  cs.foldr (fun c acc => c + y * acc) 0.0

def stirlingCoefficients : List Float :=
  [1.0 / 12.0, -1.0 / 360.0, 1.0 / 1260.0, -1.0 / 1680.0, 1.0 / 1188.0,
    -691.0 / 360360.0, 1.0 / 156.0, -3617.0 / 122400.0]

def stirling (x : Float) : Float :=
  (x - 0.5) * x.log - x + halfLogTwoPi + evenSeries stirlingCoefficients x / x

def risingProduct (x : Float) : Nat → Float
  | 0 => 1.0
  | n + 1 => x * risingProduct (x + 1.0) n

def stepsToTen (x : Float) : Nat :=
  if x < 10.0 then (10.0 - x).ceil.toUInt64.toNat else 0

def logGammaPositive (x : Float) : Float :=
  if x.isInf then x
  else
    let n := stepsToTen x
    stirling (x + Float.ofNat n) - (risingProduct x n).log

/-- The logarithm of the absolute value of the gamma function; infinite at zero
and at the negative integers. -/
def logGamma (x : Float) : Float :=
  if x.isNaN then x
  else if x.isInf then 1.0 / 0.0
  else if 0.0 < x then logGammaPositive x
  else if x == x.floor then 1.0 / 0.0
  else (pi / (Float.sin (pi * x)).abs).log - logGammaPositive (1.0 - x)

/-!
# The digamma function
-/

def digammaCoefficients : List Float :=
  [1.0 / 12.0, -1.0 / 120.0, 1.0 / 252.0, -1.0 / 240.0, 1.0 / 132.0,
    -691.0 / 32760.0, 1.0 / 12.0]

def digammaLarge (x : Float) : Float :=
  x.log - 0.5 / x - evenSeries digammaCoefficients x / (x * x)

def harmonicSum (x : Float) : Nat → Float
  | 0 => 0.0
  | n + 1 => 1.0 / x + harmonicSum (x + 1.0) n

def digammaPositive (x : Float) : Float :=
  let n := stepsToTen x
  digammaLarge (x + Float.ofNat n) - harmonicSum x n

/-- The derivative of `log Gamma`; undefined at zero and the negative integers. -/
def digamma (x : Float) : Float :=
  if x.isNaN then x
  else if x.isInf then (if 0.0 < x then x else 0.0 / 0.0)
  else if 0.0 < x then digammaPositive x
  else if x == x.floor then 0.0 / 0.0
  else digammaPositive (1.0 - x) - pi / Float.tan (pi * x)

def logBeta (a b : Float) : Float :=
  logGamma a + logGamma b - logGamma (a + b)

def logGammaJet (x : Jet) : Jet :=
  x.chain (logGamma x.value) (digamma x.value)

end Special
end DensityGraph
