import DensityGraph.Constraint.Triangle
import DensityGraph.Tensor.Matrix
/-!
# Transforms

The map of a constraint takes free vectors, which stand on the last axis of a
tensor, to values in the range of the constraint.  The logarithm of the absolute
determinant of its derivative is summed over everything but the batch axis.
-/

namespace DensityGraph

inductive TransformFault where
  | noAxis
  | freeLength (length : Nat)
  | emptyInterval
deriving Repr, DecidableEq, Inhabited

namespace Tensor

variable {α : Type} [Scalar α]

def vectorAt (t : Tensor α) (batch : List Nat) : List α :=
  (List.range (t.shape.getLastD 0)).map fun j => t.get (batch ++ [j])

def mapVectors (inner : Shape) (f : List α → List α) (t : Tensor α) : Tensor α :=
  let batch : Shape := t.shape.dropLast
  let results := Array.ofFn fun b : Fin batch.size =>
    (f (t.vectorAt (batch.unravel b))).toArray
  ofFn (batch ++ inner) fun index =>
    (results.getD (batch.offset (index.take batch.length)) #[]).getD
      (inner.offset (index.drop batch.length)) Scalar.undefined

end Tensor

namespace Constraint

variable {α : Type} [Scalar α]

/-!
# Matrices from free vectors

Partial correlations fill the rows of the factor of a correlation matrix, each of which is a
unit vector.  For the factor of a covariance matrix, the logarithms of the diagonal come first
in the free vector, and the entries below the diagonal follow.
-/

def pad (n : Nat) (row : List α) : List α :=
  row ++ List.replicate (n - row.length) Scalar.zero

def unitRow (sumsq : α) : List α → List α
  | [] => [Scalar.sqrt (Scalar.one - sumsq)]
  | z :: zs =>
      let w := z * Scalar.sqrt (Scalar.one - sumsq)
      w :: unitRow (sumsq + w * w) zs

def correlationFactor (n : Nat) (z : List α) : Rows α :=
  (Triangle.rows n z).map fun zs => pad n (unitRow Scalar.zero zs)

def correlationMatrix (n : Nat) (x : List α) : Rows α :=
  Rows.gram (correlationFactor n (x.map Scalar.tanh))

def covarianceFactor (n : Nat) (x : List α) : Rows α :=
  List.zipWith (fun row d => pad n (row ++ [Scalar.exp d]))
    (Triangle.rows n (x.drop n)) (x.take n)

def covarianceMatrix (n : Nat) (x : List α) : Rows α :=
  Rows.gram (covarianceFactor n x)

def sideOf (x : Tensor α) : Except TransformFault Nat :=
  match x.shape.getLast? with
  | none => .error .noAxis
  | some k =>
      match Triangle.root? k with
      | none => .error (.freeLength k)
      | some n => .ok n

/-!
# Values from free tensors
-/

def forward (c : Constraint) (lower upper : α) (x : Tensor α) :
    Except TransformFault (Tensor α) :=
  match c with
  | unconstrained => .ok x
  | interval => .ok (x.map fun v => Scalar.sigmoid v * (upper - lower) + lower)
  | upperBounded => .ok (x.map fun v => upper - Scalar.exp v)
  | lowerBounded => .ok (x.map fun v => Scalar.exp v + lower)
  | correlation =>
      (sideOf x).map fun n =>
        x.mapVectors [n + 1, n + 1] fun v => (correlationMatrix (n + 1) v).flatten
  | covariance =>
      (sideOf x).map fun n => x.mapVectors [n, n] fun v => (covarianceMatrix n v).flatten

/-!
# Jacobians
-/

def logOneMinusTanhSquare (x : α) : α :=
  Scalar.ofNat 2 *
    (Scalar.log (Scalar.ofNat 2) - x - Scalar.softplus (-(Scalar.ofNat 2) * x))

def correlationPower (n j : Nat) : Nat :=
  n - j - 2

def correlationLogJacobian (n : Nat) (x : Tensor α) : Tensor α :=
  let columns := (Triangle.columns n).toArray
  let logs := x.map logOneMinusTanhSquare
  let weighted := Tensor.ofFn x.shape fun index =>
    Scalar.ofNat (correlationPower n (columns.getD (index.getLastD 0) 0)) * logs.get index
  let plain := logs.sumEvent
  let powers := weighted.sumEvent
  Tensor.ofFn plain.shape fun index => plain.get index + Scalar.half * powers.get index

/-- The logarithm of the Jacobian of `covarianceMatrix`: the diagonal entry `i`
enters with the power `n + 1 - i`. -/
def covarianceLogJacobian (n : Nat) (x : Tensor α) : Tensor α :=
  Tensor.ofFn x.shape.dropLast fun index =>
    Scalar.ofNat n * Scalar.log (Scalar.ofNat 2) +
      Scalar.sum ((List.range n).map fun i =>
        Scalar.ofNat (n + 1 - i) * x.get (index ++ [i]))

def logJacobian (c : Constraint) (lower upper : α) (x : Tensor α) :
    Except TransformFault (Tensor α) :=
  match c with
  | unconstrained =>
      match x.shape.head? with
      | none => .error .noAxis
      | some n => .ok (Tensor.full [n] Scalar.zero)
  | interval =>
      if Scalar.lessEq (upper - lower) Scalar.zero then .error .emptyInterval
      else
        let width := Scalar.log (upper - lower)
        .ok (x.map fun v => v - Scalar.ofNat 2 * Scalar.softplus v + width).sumEvent
  | upperBounded => .ok x.sumEvent
  | lowerBounded => .ok x.sumEvent
  | correlation => (sideOf x).map fun n => correlationLogJacobian (n + 1) x
  | covariance => (sideOf x).map fun n => covarianceLogJacobian n x

end Constraint
end DensityGraph
