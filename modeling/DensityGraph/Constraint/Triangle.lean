import DensityGraph.Scalar.Basic
import DensityGraph.Constraint.Kind
import DensityGraph.Number.Significant
/-!
# Triangles

The free vector of a matrix constraint fills a triangle row by row.  A strict
triangle of `n` rows has `0, 1, …, n - 1` entries in its rows, so that the entry in
row `i` and column `j` has position `i * (i - 1) / 2 + j`.

The equation `size n = k` has the solution `(√(8 * k + 1) - 1) / 2`, by which the number of
rows is found from the number of entries.  It is computed with doubles, so that both the number
below the root and the root have 53 binary digits.
-/

namespace DensityGraph
namespace Triangle

def size (n : Nat) : Nat :=
  n * (n + 1) / 2

/-- A whole number rounded to 53 binary digits, ties to even. -/
def roundPlaces (n : Nat) : Nat :=
  let unit := Nat.pow 2 (n.log2 - 52)
  Significant.roundQuotient n unit * unit

def nearestRoot (n : Nat) : Nat :=
  let r := n.sqrt
  if r * r + r < n then r + 1 else r

/-- The number of rows that the rounded root leads to, if it is whole.  A root that has `places`
binary digits behind the point is read in units of its last one. -/
def roundedRoot? (k : Nat) : Option Nat :=
  let n := roundPlaces (8 * k + 1)
  let places := 52 - n.log2 / 2
  let r := nearestRoot (n * Nat.pow 4 places)
  let unit := Nat.pow 2 places
  if r % (2 * unit) = unit then some (r / (2 * unit)) else none

def exactRoot? (k : Nat) : Option Nat :=
  let r := (8 * k + 1).sqrt
  if r * r = 8 * k + 1 then some (r / 2) else none

/-- The number of rows of a triangle with `k` entries.  Arrays have fewer than `2 ^ 63` of them;
for larger numbers, which nothing asks for, the root is exact. -/
def root? (k : Nat) : Option Nat :=
  if k = 0 then none else if k < Nat.pow 2 63 then roundedRoot? k else exactRoot? k

def rowsFrom {α : Type} (i : Nat) : Nat → List α → List (List α)
  | 0, _ => []
  | count + 1, xs => xs.take i :: rowsFrom (i + 1) count (xs.drop i)

def rows {α : Type} (n : Nat) (xs : List α) : List (List α) :=
  rowsFrom 0 n xs

def columns (n : Nat) : List Nat :=
  (List.range n).flatMap List.range

end Triangle

namespace Constraint

def squareSide? : List Int → Option Nat
  | [m, n] => if m = n ∧ 2 ≤ n then some n.toNat else none
  | _ => none

/-- The length of a free vector for values of a shape; a matrix constraint needs a
square shape. -/
def freeSize? (c : Constraint) (dim : List Int) : Option Int :=
  match c with
  | correlation => (squareSide? dim).map fun n => ((n * (n - 1) / 2 : Nat) : Int)
  | covariance => (squareSide? dim).map fun n => ((n * (n + 1) / 2 : Nat) : Int)
  | _ => some (dim.foldl (· * ·) 1)

end Constraint
end DensityGraph
