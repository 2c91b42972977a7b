import DensityGraph.Number.Precision
/-!
# Scalars

Constraints, operations and densities are written once, over any type of scalars.
Kept numbers evaluate them, numbers with slopes differentiate them along the way,
and the exact reals give them their mathematical meaning.
-/

namespace DensityGraph

class Scalar (α : Type) extends Add α, Sub α, Mul α, Div α, Neg α where
  ofNat : Nat → α
  constant : Precision → Float → α
  undefined : α
  pi : α
  exp : α → α
  log : α → α
  log1p : α → α
  expm1 : α → α
  sqrt : α → α
  abs : α → α
  tanh : α → α
  arctan : α → α
  sigmoid : α → α
  softplus : α → α
  power : α → α → α
  xlogy : α → α → α
  xlog1py : α → α → α
  logGamma : α → α
  logNormalCdf : α → α
  gammaCdf : α → α → α
  betaCdf : α → α → α → α
  isFinite : α → Bool
  less : α → α → Bool
  equal : α → α → Bool
  select : Bool → α → α → α

namespace Scalar

variable {α : Type} [Scalar α]

def literal (x : Float) : α :=
  constant .literal x

def zero : α := ofNat 0

def one : α := ofNat 1

def half : α := (one : α) / ofNat 2

def square (x : α) : α := x * x

def arctanh (x : α) : α :=
  (log1p x - log1p (-x)) * half

def lessEq (x y : α) : Bool :=
  less x y || equal x y

def sum (xs : List α) : α :=
  xs.foldl (· + ·) zero

/-- The larger of two scalars; of two equal ones their mean, so that slopes are
shared. -/
def larger (x y : α) : α :=
  if equal x y then (x + y) * half
  else if less x y then select false x y
  else select true x y

def smaller (x y : α) : α :=
  if equal x y then (x + y) * half
  else if less x y then select true x y
  else select false x y

/-!
# Logarithms of sums and differences
-/

def log1mexp (x : α) : α :=
  let a := abs x
  select (less a (log (ofNat 2))) (log (-(expm1 (-a)))) (log1p (-(exp (-a))))

def logSubExp (x y : α) : α :=
  let high := larger x y
  let low := smaller x y
  high + log1mexp (larger (high - low) zero)

def mulNoNan (x y : α) : α :=
  select (equal y zero) zero (x * y)

def logBeta (x y : α) : α :=
  logGamma x + logGamma y - logGamma (x + y)

end Scalar
end DensityGraph
