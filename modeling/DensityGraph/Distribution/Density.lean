import DensityGraph.Distribution.Family
import DensityGraph.Scalar.Basic
/-!
# Densities

The logarithms of densities and probabilities of single numbers.  The parameters
come in the order of `Family.parameterNames`.
-/

namespace DensityGraph
namespace Density

variable {α : Type} [Scalar α]

open Scalar

def negativeInfinity : α :=
  literal (-(1.0 / 0.0))

def normal (mean sd x : α) : α :=
  -half * square (x / sd - mean / sd) - (half * log (ofNat 2 * pi) + log sd)

def lognormal (meanlog sdlog x : α) : α :=
  select (equal x zero) negativeInfinity (normal meanlog sdlog (log x) - log x)

def gamma (shape rate x : α) : α :=
  xlogy (shape - one) x - rate * x - (logGamma shape - shape * log rate)

def exponential (rate x : α) : α :=
  gamma one rate x

def uniform (min max x : α) : α :=
  let isUndefined := !equal x x
  let isOutside := less x min || less max x
  log (select isUndefined x (select isOutside zero (one / (max - min))))

def beta (shape1 shape2 x : α) : α :=
  xlogy (shape1 - one) x + xlog1py (shape2 - one) (-x) - logBeta shape1 shape2

def cauchy (location scale x : α) : α :=
  -(log1p (square ((x - location) / scale))) - (log pi + log scale)

def student (df mu sigma x : α) : α :=
  let y := (x - mu) / (sigma * sqrt df)
  log1p (square y) * (-half * (df + one)) -
    (log (abs sigma) + half * log df + half * log pi +
      (logGamma (df * half) - logGamma ((df + one) * half)))

def poisson (rate x : α) : α :=
  select (less x zero) negativeInfinity (mulNoNan (log rate) x - logGamma (one + x)) - rate

def bernoulli (prob x : α) : α :=
  mulNoNan (log1p (-prob)) (one - x) + mulNoNan (log prob) x

def binomial (size prob x : α) : α :=
  mulNoNan (log prob) x + mulNoNan (log1p (-prob)) (size - x) -
    logBeta (one + x) (one + size - x) - log (one + size)

end Density

namespace Family

variable {α : Type} [Scalar α]

def logDensity (f : Family) (parameters : List α) (x : α) : α :=
  match f, parameters with
  | normal, [mean, sd] => Density.normal mean sd x
  | lognormal, [meanlog, sdlog] => Density.lognormal meanlog sdlog x
  | exponential, [rate] => Density.exponential rate x
  | gamma, [shape, rate] => Density.gamma shape rate x
  | uniform, [min, max] => Density.uniform min max x
  | beta, [shape1, shape2] => Density.beta shape1 shape2 x
  | cauchy, [location, scale] => Density.cauchy location scale x
  | student, [df, mu, sigma] => Density.student df mu sigma x
  | poisson, [rate] => Density.poisson rate x
  | bernoulli, [prob] => Density.bernoulli prob x
  | binomial, [size, prob] => Density.binomial size prob x
  | _, _ => Scalar.undefined

end Family
end DensityGraph
