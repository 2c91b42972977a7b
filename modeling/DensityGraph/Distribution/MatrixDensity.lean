import DensityGraph.Tensor.Matrix
/-!
# Densities of matrices

Logarithms of the densities of a correlation matrix and of a covariance matrix.
-/

namespace DensityGraph
namespace MatrixDensity

variable {α : Type} [Scalar α]

open Scalar

def halves (n : Nat) : α :=
  (ofNat n : α) * half

def logCorrelationNormalization (d : Nat) (eta : α) : α :=
  Scalar.sum ((List.range (d - 1)).map fun i =>
    let k := i + 1
    let base := eta + halves (d - 1 - k)
    logGamma base - logGamma (halves k + base)) +
    log pi * (ofNat (d * (d - 1)) / ofNat 4)

def correlation (d : Nat) (eta : α) (x : Rows α) : α :=
  -(logCorrelationNormalization d eta) + (eta - one) * Rows.logAbsDet d x

/-- A factor of a symmetric matrix; where there is none, all entries are
undefined. -/
def factorOrUndefined (x : Rows α) : List (List α) :=
  let symmetric := x.symmetrize
  match symmetric.cholesky? with
  | some factor => factor
  | none =>
      let everything := Scalar.sum symmetric.flatten
      (List.range x.length).map fun i =>
        (List.range (i + 1)).map fun _ => undefined * everything

def logDiagonal (factor : List (List α)) : α :=
  Scalar.sum (factor.map fun row => log (row.getLastD one))

def columnsOf (factor : List (List α)) : List (List α) :=
  (List.range factor.length).map fun j => factor.map fun row => row.getD j zero

def logCovarianceNormalization (d : Nat) (df : α) (scale : List (List α)) : α :=
  df * logDiagonal scale + half * df * ofNat d * log (ofNat 2) +
    ofNat (d * (d - 1)) / ofNat 4 * log pi +
    Scalar.sum ((List.range d).map fun i => logGamma ((df - ofNat i) * half))

def covariance (d : Nat) (df : α) (sigma x : Rows α) : α :=
  let scale := factorOrUndefined sigma
  let factor := factorOrUndefined x
  let solved := (columnsOf factor).map fun column => Rows.solveLower scale column
  let trace := Scalar.sum (solved.flatten.map square)
  (df - ofNat d - one) * logDiagonal factor - half * trace -
    logCovarianceNormalization d df scale

end MatrixDensity
end DensityGraph
