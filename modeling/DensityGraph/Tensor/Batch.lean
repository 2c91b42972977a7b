import DensityGraph.Tensor.Basic
/-!
# Matching of batches

Arguments with a batch axis are brought to one batch size: those with a single row
are repeated.  Arguments without a batch axis stay as they are.
-/

namespace DensityGraph

class Batched (τ : Type) where
  batch? : τ → Option Nat
  repeatRows : Nat → τ → τ

namespace Batched

variable {τ : Type} [Batched τ]

def sizes (args : List τ) : List Nat :=
  (((args.filterMap batch?).filter (· ≠ 1)).eraseDups).mergeSort (· ≤ ·)

def toRows (n : Nat) (arg : τ) : τ :=
  if batch? arg = some 1 then repeatRows n arg else arg

def reconcile (args : List τ) : Except (List Nat) (List τ) :=
  match sizes args with
  | [] => .ok args
  | [n] => .ok (args.map (toRows n))
  | ns => .error ns

end Batched

namespace Tensor

variable {α : Type} [Inhabited α]

def repeatRows (n : Nat) (t : Tensor α) : Tensor α :=
  t.broadcast (n :: t.shape.tail)

instance : Batched (Tensor α) where
  batch? t := t.shape.head?
  repeatRows := repeatRows

end Tensor
end DensityGraph
