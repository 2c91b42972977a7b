import DensityGraph.Tensor.Basic
/-!
# Sums over entries

The first axis of a tensor is its batch axis.  Sums and means run over all other
axes; a tensor without axes is its own sum.
-/

namespace DensityGraph
namespace Tensor

variable {α : Type} [Scalar α]

def event (t : Tensor α) (i : Nat) : List α :=
  (List.range (Shape.size t.shape.tail)).map fun k =>
    t.get (i :: Shape.unravel t.shape.tail k)

def sumEvent (t : Tensor α) : Tensor α :=
  match t.shape with
  | [] => t
  | n :: _ => ofFn [n] fun index => Scalar.sum (t.event (index.headD 0))

def sumKeep (t : Tensor α) : Tensor α :=
  match t.shape with
  | [] => t
  | n :: s => ofFn (n :: s.map fun _ => 1) fun index => Scalar.sum (t.event (index.headD 0))

/-- The means with all axes kept; the mean of nothing is undefined. -/
def meanKeep (t : Tensor α) : Tensor α :=
  t.sumKeep.map fun x => x / Scalar.ofNat (Shape.size t.shape.tail)

def sumAll (t : Tensor α) : Tensor α :=
  scalar (Scalar.sum t.toList)

def sumOf (shape : Shape) (ts : List (Tensor α)) : Tensor α :=
  ofFn shape fun index => Scalar.sum (ts.map fun t => t.get index)

end Tensor
end DensityGraph
