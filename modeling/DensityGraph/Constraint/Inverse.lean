import DensityGraph.Constraint.Transform
/-!
# Inverse transforms

A value in the range of a constraint has one free vector.  A value outside of the
range is refused, with the way in which it misses it.
-/

namespace DensityGraph
namespace Constraint

variable {α : Type} [Scalar α]

/-!
# Values with bounds
-/

def isPositiveInfinite (x : α) : Bool :=
  !Scalar.isFinite x && Scalar.less Scalar.zero x

def isNegativeInfinite (x : α) : Bool :=
  !Scalar.isFinite x && Scalar.less x Scalar.zero

def isOutside (c : Constraint) (lower upper y : α) : Bool :=
  match c with
  | interval => Scalar.lessEq y lower || Scalar.lessEq upper y
  | upperBounded => isNegativeInfinite y || Scalar.lessEq upper y
  | lowerBounded => Scalar.lessEq y lower || isPositiveInfinite y
  | _ => false

def inverseScalar (c : Constraint) (lower upper y : α) : α :=
  match c with
  | interval =>
      let p := (y - lower) / (upper - lower)
      Scalar.log p - Scalar.log1p (-p)
  | upperBounded => Scalar.log (upper - y)
  | lowerBounded => Scalar.log (y - lower)
  | _ => y

/-!
# Matrices
-/

def isClose (a b : α) : Bool :=
  let tolerance := Scalar.one / Scalar.ofNat (Nat.pow 10 8) +
    Scalar.one / Scalar.ofNat (Nat.pow 10 5) * Scalar.abs b
  (Scalar.isFinite b && Scalar.lessEq (Scalar.abs (a - b)) tolerance) || Scalar.equal a b

def isSymmetric (m : Rows α) : Bool :=
  (List.range m.length).all fun i => (List.range m.length).all fun j =>
    isClose (m.get i j) (m.get j i)

def factorOf (y : Tensor α) : Except Misfit (Rows α × List (List α)) :=
  match y.shape with
  | [m, n] =>
      let rows := Rows.ofTensor y []
      if m = n && isSymmetric rows then
        match Rows.cholesky? rows with
        | some factor => .ok (rows, factor)
        | none => .error .notPositiveDefinite
      else .error .notSymmetric
  | _ => .error .notSymmetric

def partialCorrelations (sumsq : α) : List α → List α
  | [] => []
  | c :: cs =>
      (c / Scalar.sqrt (Scalar.one - sumsq)) :: partialCorrelations (sumsq + c * c) cs

def hasUnitDiagonal (m : Rows α) : Bool :=
  (List.range m.length).all fun i => isClose (m.get i i) Scalar.one

def inverseCorrelation (y : Tensor α) : Except Misfit (List α) := do
  let (rows, factor) ← factorOf y
  unless hasUnitDiagonal rows do throw .noUnitDiagonal
  return (factor.flatMap fun row => partialCorrelations Scalar.zero row.dropLast).map
    Scalar.arctanh

def inverseCovariance (y : Tensor α) : Except Misfit (List α) := do
  let (_, factor) ← factorOf y
  return (factor.map fun row => Scalar.log (row.getLastD Scalar.one)) ++
    factor.flatMap List.dropLast

def inverse (c : Constraint) (lower upper : α) (y : Tensor α) : Except Misfit (List α) :=
  match c with
  | correlation => inverseCorrelation y
  | covariance => inverseCovariance y
  | unconstrained =>
      if y.toList.all Scalar.isFinite then .ok y.toList else .error .notFinite
  | c =>
      if y.toList.any (isOutside c lower upper) then .error .outside
      else .ok (y.toList.map (inverseScalar c lower upper))

end Constraint
end DensityGraph
