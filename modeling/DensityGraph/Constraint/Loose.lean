import DensityGraph.Constraint.Inverse
import DensityGraph.Evaluation.Materialize
/-!
# Constraints at loose bounds

The maps of a constraint between bounds that are given as values.  Only the bounds
that the constraint has are looked at.
-/

namespace DensityGraph
namespace Constraint

def boundNumber : Value → Except Refusal Number
  | .bool b => .ok (.literal (if b then 1.0 else 0.0))
  | .int n => (Value.toFloat (.int n)).map Number.literal
  | .float x => .ok (.literal x)
  | _ => .error .type

def boundNumbers (c : Constraint) (lower upper : Value) : Except Refusal (Number × Number) :=
  let absent : Number := .literal 0.0
  match c with
  | interval => do return (← boundNumber lower, ← boundNumber upper)
  | upperBounded => do return (absent, ← boundNumber upper)
  | lowerBounded => do return (← boundNumber lower, absent)
  | _ => .ok (absent, absent)

/-- The tag of the scalar constraint of two values; what is no number is no infinite
bound. -/
def tagOf (lower upper : Value) : String :=
  let finite : Value → Float
    | .float x => x
    | _ => 0.0
  (ofBounds ⟨finite lower, finite upper⟩).tag

def forwardAt (c : Constraint) (lower upper : Value) (x : Tensor Number) :
    Except Failure (Tensor Number) := do
  let (l, u) ← Refusal.lift (c.boundNumbers lower upper)
  match c.forward l u x with
  | .ok t => return t
  | .error fault => throw fault.toFailure

def logJacobianAt (c : Constraint) (lower upper : Value) (x : Tensor Number) :
    Except Failure (Tensor Number) := do
  let (l, u) ← Refusal.lift (c.boundNumbers lower upper)
  match c.logJacobian l u x with
  | .ok t => return t
  | .error fault => throw fault.toFailure

def inverseAt (c : Constraint) (label : NodeId → String) (lower upper y : Value) :
    Except Failure (List Float) := do
  let t ← Refusal.lift y.toFloats
  let (l, u) ← Refusal.lift (c.boundNumbers lower upper)
  match c.inverse l u (t.map Number.literal) with
  | .ok free => return free.map Number.value
  | .error misfit =>
      let (lower, upper) := c.writtenBounds (lower.display label) (upper.display label)
      throw (.invalid (.range ⟨misfit, c, lower, upper, t.toList⟩))

end Constraint
end DensityGraph
