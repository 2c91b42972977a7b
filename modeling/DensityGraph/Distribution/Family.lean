/-!
# Families of distributions

Each family has a name, named parameters, a support, and either a distribution
function, so that it can be truncated, or none.  The blank family has no density
and is only a place for parameters and a target.
-/

namespace DensityGraph

inductive Family where
  | normal
  | lognormal
  | exponential
  | gamma
  | uniform
  | beta
  | cauchy
  | student
  | poisson
  | bernoulli
  | binomial
  | lkj
  | wishart
  | blank
deriving Repr, DecidableEq, Inhabited

namespace Family

def all : List Family :=
  [bernoulli, beta, binomial, cauchy, exponential, gamma, lkj, lognormal, normal, poisson,
    student, uniform, wishart]

def name : Family → String
  | normal => "normal"
  | lognormal => "lognormal"
  | exponential => "exponential"
  | gamma => "gamma"
  | uniform => "uniform"
  | beta => "beta"
  | cauchy => "cauchy"
  | student => "student"
  | poisson => "poisson"
  | bernoulli => "bernoulli"
  | binomial => "binomial"
  | lkj => "lkj_correlation"
  | wishart => "wishart"
  | blank => "no distribution"

def title : Family → String
  | normal => "NormalDistribution"
  | lognormal => "LogNormalDistribution"
  | exponential => "ExponentialDistribution"
  | gamma => "GammaDistribution"
  | uniform => "UniformDistribution"
  | beta => "BetaDistribution"
  | cauchy => "CauchyDistribution"
  | student => "StudentDistribution"
  | poisson => "PoissonDistribution"
  | bernoulli => "BernoulliDistribution"
  | binomial => "BinomialDistribution"
  | lkj => "LKJCorrelationDistribution"
  | wishart => "WishartDistribution"
  | blank => "DistributionNode"

def ofName? (s : String) : Option Family :=
  all.find? fun f => f.name == s

def ofTitle? (s : String) : Option Family :=
  (all ++ [blank]).find? fun f => f.title == s

def hasCdf : Family → Bool
  | normal | lognormal | exponential | gamma | uniform | beta | cauchy | student => true
  | _ => false

def isDiscrete : Family → Bool
  | poisson | bernoulli | binomial => true
  | _ => false

def parameterNames : Family → List String
  | normal => ["mean", "sd"]
  | lognormal => ["meanlog", "sdlog"]
  | exponential => ["rate"]
  | gamma => ["shape", "rate"]
  | uniform => ["min", "max"]
  | beta => ["shape1", "shape2"]
  | cauchy => ["location", "scale"]
  | student => ["df", "mu", "sigma"]
  | poisson => ["rate"]
  | bernoulli => ["prob"]
  | binomial => ["size", "prob"]
  | lkj => ["eta"]
  | wishart => ["df", "sigma"]
  | blank => []

end Family

structure Interval where
  lower : Float
  upper : Float
deriving Inhabited

namespace Interval

def whole : Interval :=
  ⟨-(1.0 / 0.0), 1.0 / 0.0⟩

def positive : Interval :=
  ⟨0.0, 1.0 / 0.0⟩

def unit : Interval :=
  ⟨0.0, 1.0⟩

def sameAs (i j : Interval) : Bool :=
  i.lower == j.lower && i.upper == j.upper

end Interval

def Family.support : Family → Interval
  | .lognormal | .exponential | .gamma | .poisson | .binomial => .positive
  | .beta | .bernoulli => .unit
  | _ => .whole

end DensityGraph
