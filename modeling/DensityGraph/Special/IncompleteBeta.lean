import DensityGraph.Special.Gamma
/-!
# The incomplete beta function

The regularized incomplete beta function with its slopes in both shapes, by the
continued fraction that converges on the lower side of the mean; the upper side is
reached by exchanging the shapes.
-/

namespace DensityGraph
namespace Special

def oddNumerator (a b : Jet) (x m : Float) : Jet :=
  let am := a + Jet.constant m
  let a2m := a + Jet.constant (2.0 * m)
  ((am * (am + b)).scale (-x)) / (a2m * (a2m + Jet.constant 1.0))

def evenNumerator (a b : Jet) (x m : Float) : Jet :=
  let a2m := a + Jet.constant (2.0 * m)
  ((b - Jet.constant m).scale (m * x)) / ((a2m - Jet.constant 1.0) * a2m)

def betaFraction (a b : Jet) (x : Float) : Nat → Jet → Jet
  | 0, acc => Jet.constant 1.0 + oddNumerator a b x 0.0 / acc
  | k + 1, acc =>
      let m := Float.ofNat (k + 1)
      let inner := Jet.constant 1.0 + oddNumerator a b x m / acc
      betaFraction a b x k (Jet.constant 1.0 + evenNumerator a b x m / inner)

def betaLowerJet (a b : Jet) (x : Float) : Jet :=
  let logBetaJet := logGammaJet a + logGammaJet b - logGammaJet (a + b)
  let factor := (a.scale x.log + b.scale (log1p (-x)) - logBetaJet).exp
  factor / (a * betaFraction a b x 300 (Jet.constant 1.0))

def betaCdfJet (a b x : Float) : Jet :=
  let first := Jet.firstParameter a
  let second := Jet.secondParameter b
  if x < (a + 1.0) / (a + b + 2.0) then betaLowerJet first second x
  else Jet.constant 1.0 - betaLowerJet second first (1.0 - x)

def betaUndefined (a b x : Float) : Bool :=
  a.isNaN || b.isNaN || x.isNaN || a ≤ 0.0 || b ≤ 0.0

/-- The probability below `x` of a beta distribution; `x` is clamped to `[0, 1]`. -/
def betaCdf (a b x : Float) : Float :=
  if betaUndefined a b x then 0.0 / 0.0
  else if x ≤ 0.0 then 0.0
  else if 1.0 ≤ x then 1.0
  else (betaCdfJet a b x).value

def betaCdfShapeSlopes (a b x : Float) : Float × Float :=
  if betaUndefined a b x then (0.0 / 0.0, 0.0 / 0.0)
  else if x ≤ 0.0 || 1.0 ≤ x then (0.0, 0.0)
  else
    let j := betaCdfJet a b x
    (j.first, j.second)

def betaDensity (a b x : Float) : Float :=
  ((a - 1.0) * x.log + (b - 1.0) * log1p (-x) - logBeta a b).exp

end Special
end DensityGraph
