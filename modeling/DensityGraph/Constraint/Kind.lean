import DensityGraph.Distribution.Family
/-!
# Constraints

A constraint says which values a variable can take, and is a bijection from free
vectors onto them.  A variable with bounds has one of the four scalar constraints.
-/

namespace DensityGraph

inductive Constraint where
  | unconstrained
  | interval
  | upperBounded
  | lowerBounded
  | correlation
  | covariance
deriving Repr, DecidableEq, Inhabited

namespace Constraint

def all : List Constraint :=
  [unconstrained, interval, upperBounded, lowerBounded, correlation, covariance]

def tag : Constraint → String
  | unconstrained => "none"
  | interval => "both"
  | upperBounded => "low"
  | lowerBounded => "high"
  | correlation => "correlation_matrix"
  | covariance => "covariance_matrix"

def title : Constraint → String
  | unconstrained => "Unconstrained()"
  | interval => "Interval()"
  | upperBounded => "UpperBounded()"
  | lowerBounded => "LowerBounded()"
  | correlation => "CorrelationMatrix()"
  | covariance => "CovarianceMatrix()"

def ofTag? (s : String) : Option Constraint :=
  all.find? fun c => c.tag == s

theorem ofTag?_tag (c : Constraint) : ofTag? c.tag = some c := by
  cases c <;> decide

def ofBounds (b : Interval) : Constraint :=
  if b.lower == Interval.whole.lower && b.upper == Interval.whole.upper then unconstrained
  else if b.lower == Interval.whole.lower then upperBounded
  else if b.upper == Interval.whole.upper then lowerBounded
  else interval

def isMatrix : Constraint → Bool
  | correlation | covariance => true
  | _ => false

/-- The bounds as they are written behind a value: those that a constraint does not
have are infinite. -/
def writtenBounds (c : Constraint) (lower upper : String) : String × String :=
  match c with
  | upperBounded => ("-inf", upper)
  | lowerBounded => (lower, "inf")
  | _ => (lower, upper)

end Constraint

inductive Misfit where
  | notFinite
  | outside
  | notSymmetric
  | notPositiveDefinite
  | noUnitDiagonal
deriving Repr, DecidableEq, Inhabited

end DensityGraph
