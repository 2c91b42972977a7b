import DensityGraph.Special.Gamma
/-!
# The incomplete gamma function

The regularized lower incomplete gamma function with its slope in the shape: a
power series below the bulk of the distribution, a continued fraction above it.
-/

namespace DensityGraph
namespace Special

def gammaSeries (x : Float) (a term sum : Jet) : Nat → Jet
  | 0 => sum
  | fuel + 1 =>
      let a' := a + Jet.constant 1.0
      let term' := (term * Jet.constant x) / a'
      let sum' := sum + term'
      if term'.value.abs < 1e-18 * sum'.value.abs && term'.first.abs < 1e-18 * sum'.first.abs
      then sum'
      else gammaSeries x a' term' sum' fuel

def gammaFraction (x : Float) (a : Jet) : Nat → Jet → Jet
  | 0, acc => acc
  | k + 1, acc =>
      let n := Float.ofNat (k + 1)
      let partialNumerator := (Jet.constant n - a).scale n
      let denominator := Jet.constant (x + 2.0 * n - 1.0) - a
      gammaFraction x a k (denominator - partialNumerator / acc)

def gammaFactor (x : Float) (a : Jet) : Jet :=
  (a.scale x.log - Jet.constant x - logGammaJet a).exp

/-- The regularized lower incomplete gamma function at positive `x`, as a jet in
the shape `a`. -/
def gammaCdfJet (a x : Float) : Jet :=
  let shape := Jet.firstParameter a
  if x < a + 1.0 then
    let first := Jet.constant 1.0 / shape
    gammaFactor x shape * gammaSeries x shape first first 10000
  else
    let depth := 200 + (5.0 * x.sqrt).toUInt64.toNat
    let last := Jet.constant (x + 2.0 * Float.ofNat depth + 1.0) - shape
    Jet.constant 1.0 - gammaFactor x shape / gammaFraction x shape depth last

def gammaCdf (a x : Float) : Float :=
  if a.isNaN || x.isNaN || a ≤ 0.0 || x < 0.0 then 0.0 / 0.0
  else if x == 0.0 then 0.0
  else if x.isInf then 1.0
  else if a.isInf then 0.0
  else (gammaCdfJet a x).value

def gammaCdfShapeSlope (a x : Float) : Float :=
  if a.isNaN || x.isNaN || a ≤ 0.0 || x < 0.0 then 0.0 / 0.0
  else if x == 0.0 || x.isInf || a.isInf then 0.0
  else (gammaCdfJet a x).first

def gammaDensity (a x : Float) : Float :=
  ((a - 1.0) * x.log - x - logGamma a).exp

end Special
end DensityGraph
