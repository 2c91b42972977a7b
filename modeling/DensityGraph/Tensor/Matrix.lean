import DensityGraph.Tensor.Reduce
/-!
# Matrices

The last two axes of a tensor are the rows and columns of matrices.  Factorizations
work on one matrix at a time, given by its rows.
-/

namespace DensityGraph
namespace Tensor

variable {α : Type} [Scalar α]

def swapLast {β : Type} (xs : List β) : List β :=
  match xs.reverse with
  | x :: y :: rest => (y :: x :: rest).reverse
  | _ => xs

def transpose? (t : Tensor α) : Option (Tensor α) :=
  if t.rank < 2 then none
  else some (ofFn (swapLast t.shape) fun index => t.get (swapLast index))

def batchShape (s : Shape) : Shape :=
  s.dropLast.dropLast

def rows (s : Shape) : Nat :=
  s.dropLast.getLastD 1

def columns (s : Shape) : Nat :=
  s.getLastD 1

def product (batch : Shape) (t u : Tensor α) : Tensor α :=
  ofFn (batch ++ [rows t.shape, columns u.shape]) fun index =>
    let outer := index.dropLast.dropLast
    let i := index.dropLast.getLastD 0
    let j := index.getLastD 0
    Scalar.sum ((List.range (columns t.shape)).map fun k =>
      t.get (Shape.project (batchShape t.shape) outer ++ [i, k]) *
        u.get (Shape.project (batchShape u.shape) outer ++ [k, j]))

end Tensor

/-!
# Matrices by rows
-/

abbrev Rows (α : Type) := List (List α)

namespace Rows

variable {α : Type} [Scalar α]

def get (m : Rows α) (i j : Nat) : α :=
  (m.getD i []).getD j Scalar.zero

def ofFn (n : Nat) (f : Nat → Nat → α) : Rows α :=
  (List.range n).map fun i => (List.range n).map fun j => f i j

def dot (xs ys : List α) : α :=
  Scalar.sum (List.zipWith (· * ·) xs ys)

def gram (m : Rows α) : Rows α :=
  m.map fun r => m.map fun s => dot r s

def ofTensor (t : Tensor α) (batch : List Nat) : Rows α :=
  ofFn (Tensor.columns t.shape) fun i j => t.get (batch ++ [i, j])

def symmetrize (m : Rows α) : Rows α :=
  ofFn m.length fun i j => (get m i j + get m j i) * Scalar.half

/-!
# Cholesky factors

Rows of the factor are kept up to the diagonal.  The factorization stops at a pivot that is
not positive.
-/

def factorRow (above : List (List α)) (entries : List α) : List α :=
  (above.zip entries).foldl (fun row (r, a) =>
    row ++ [(a - dot row r) / r.getLastD Scalar.one]) []

def factorRows? (done : List (List α)) : List (List α) → Option (List (List α))
  | [] => some done
  | entries :: rest =>
      let row := factorRow done entries
      let pivot := entries.getD done.length Scalar.zero - dot row row
      if Scalar.less Scalar.zero pivot then
        factorRows? (done ++ [row ++ [Scalar.sqrt pivot]]) rest
      else none

/-- The lower Cholesky factor, each row up to its diagonal; only the lower triangle
is read. -/
def cholesky? (m : Rows α) : Option (List (List α)) :=
  factorRows? [] m

def solveLower (l : List (List α)) (b : List α) : List α :=
  (l.zip b).foldl (fun x (r, v) => x ++ [(v - dot x r) / r.getLastD Scalar.one]) []

/-!
# Determinants
-/

def pivotRow (m : Rows α) : Nat :=
  ((m.map fun r => Scalar.abs (r.headD Scalar.zero)).zipIdx.foldl
    (fun (best : α × Nat) (x, i) => if Scalar.less best.1 x then (x, i) else best)
    (Scalar.abs ((m.headD []).headD Scalar.zero), 0)).2

def eliminate (m : Rows α) : α × Rows α :=
  let p := pivotRow m
  let row := m.getD p []
  let pivot := row.headD Scalar.zero
  let others := m.eraseIdx p
  (pivot, others.map fun r =>
    let factor := r.headD Scalar.zero / pivot
    List.zipWith (fun x y => x - factor * y) r.tail row.tail)

def logAbsDet : Nat → Rows α → α
  | 0, _ => Scalar.zero
  | n + 1, m =>
      let (pivot, rest) := eliminate m
      Scalar.log (Scalar.abs pivot) + logAbsDet n rest

end Rows
end DensityGraph
