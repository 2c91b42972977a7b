import DensityGraph.Distribution.Density
/-!
# Distribution functions

The logarithm of the probability of at most a number, and that of more than it.
The mass of an interval is their difference, taken at the end where it keeps its
precision.
-/

namespace DensityGraph
namespace Cumulative

variable {α : Type} [Scalar α]

open Scalar

def normal (mean sd x : α) : α :=
  logNormalCdf ((x - mean) / sd)

def normalSurvival (mean sd x : α) : α :=
  logNormalCdf (-((x - mean) / sd))

def exponential (rate x : α) : α :=
  log (-(expm1 (-(rate * x))))

def gammaCdf (shape rate x : α) : α :=
  Scalar.gammaCdf shape (rate * x)

/-- The beta distribution function, zero and one outside of the unit interval. -/
def betaCdf (shape1 shape2 x : α) : α :=
  let inside := select (less zero x && less x one) x half
  select (lessEq x zero) zero
    (select (lessEq one x) one (Scalar.betaCdf shape1 shape2 inside))

def studentCdf (df mu sigma x : α) : α :=
  let t := (x - mu) / abs sigma
  let tail := half * Scalar.betaCdf (df * half) half (df / (df + square t))
  select (less t zero) tail (one - tail)

def cauchy (location scale x : α) : α :=
  log1p (ofNat 2 / pi * arctan ((x - location) / scale)) - log (ofNat 2)

end Cumulative

namespace Family

variable {α : Type} [Scalar α]

open Scalar

def logCdf (f : Family) (parameters : List α) (x : α) : α :=
  match f, parameters with
  | .normal, [mean, sd] => Cumulative.normal mean sd x
  | .lognormal, [meanlog, sdlog] => Cumulative.normal meanlog sdlog (Scalar.log x)
  | .exponential, [rate] => Cumulative.exponential rate x
  | .gamma, [shape, rate] => Scalar.log (Cumulative.gammaCdf shape rate x)
  | .beta, [shape1, shape2] => Scalar.log (Cumulative.betaCdf shape1 shape2 x)
  | .cauchy, [location, scale] => Cumulative.cauchy location scale x
  | .student, [df, mu, sigma] => Scalar.log (Cumulative.studentCdf df mu sigma x)
  | _, _ => Scalar.undefined

def logSurvival (f : Family) (parameters : List α) (x : α) : α :=
  match f, parameters with
  | .normal, [mean, sd] => Cumulative.normalSurvival mean sd x
  | .lognormal, [meanlog, sdlog] => Cumulative.normalSurvival meanlog sdlog (Scalar.log x)
  | .exponential, [rate] => -(rate * x)
  | .gamma, [shape, rate] => Scalar.log1p (-(Cumulative.gammaCdf shape rate x))
  | .beta, [shape1, shape2] =>
      Scalar.log1mexp (Scalar.log (Cumulative.betaCdf shape1 shape2 x))
  | .cauchy, [location, scale] => Scalar.log1mexp (Cumulative.cauchy location scale x)
  | .student, [df, mu, sigma] => Scalar.log1p (-(Cumulative.studentCdf df mu sigma x))
  | _, _ => Scalar.undefined

def logMass (f : Family) (parameters : List α) (support truncation : Interval)
    (lower upper : α) : α :=
  if truncation.lower == support.lower then f.logCdf parameters upper
  else
    let above := f.logSurvival parameters lower
    if truncation.upper == support.upper then above
    else
      let below := f.logCdf parameters upper
      let fromCdf := Scalar.logSubExp below (f.logCdf parameters lower)
      let fromSurvival := Scalar.logSubExp above (f.logSurvival parameters upper)
      Scalar.select (Scalar.less above below) fromSurvival fromCdf

end Family
end DensityGraph
