import DensityGraph.Special.Gamma
/-!
# The normal distribution function

Near the centre the error function is summed as a series; in the tail its
complement is a continued fraction, taken without the factor `exp (-x ^ 2)` so
that its logarithm keeps its precision.
-/

namespace DensityGraph
namespace Special

def errorSeries (square term : Float) (k : Float) : Nat → Float
  | 0 => term
  | fuel + 1 => term + errorSeries square (term * 2.0 * square / (2.0 * k + 3.0)) (k + 1.0) fuel

def errorFunctionSmall (x : Float) : Float :=
  2.0 / pi.sqrt * (-(x * x)).exp * errorSeries (x * x) x 0.0 60

/-- The continued fraction `x + (k / 2) / (x + ((k + 1) / 2) / ...)` from its depth
upwards. -/
def complementFraction (x : Float) : Nat → Float → Float
  | 0, acc => acc
  | k + 1, acc => complementFraction x k (x + (Float.ofNat (k + 1) / 2.0) / acc)

def scaledComplement (x : Float) : Float :=
  1.0 / (pi.sqrt * complementFraction x 200 x)

def normalCdf (z : Float) : Float :=
  let x := z / (2.0 : Float).sqrt
  if z.isNaN then z
  else if x < -2.0 then 0.5 * (-(x * x)).exp * scaledComplement (-x)
  else if x ≤ 2.0 then 0.5 * (1.0 + errorFunctionSmall x)
  else 1.0 - 0.5 * (-(x * x)).exp * scaledComplement x

/-- The logarithm of `normalCdf`.  Up to eight it is taken of the rounded probability;
beyond, where that is one to within a few units of the last place, it is minus the
probability of the other side. -/
def logNormalCdf (z : Float) : Float :=
  let x := z / (2.0 : Float).sqrt
  if z.isNaN then z
  else if x.isInf then (if 0.0 < x then 0.0 else x)
  else if x < -2.0 then -(x * x) + (0.5 * scaledComplement (-x)).log
  else if z ≤ 8.0 then (normalCdf z).log
  else -(normalCdf (-z))

def logNormalCdfSlope (z : Float) : Float :=
  (-(z * z) / 2.0 - halfLogTwoPi - logNormalCdf z).exp

end Special
end DensityGraph
