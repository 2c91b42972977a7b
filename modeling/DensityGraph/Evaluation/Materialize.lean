import DensityGraph.Constraint.Transform
import DensityGraph.Dag.Basic
import DensityGraph.Evaluation.Density
/-!
# Materialization

A pass over a compiled graph, parents first, gives every node its entry: data the
values fed for them or constants, variables their values and Jacobians, operations
their results, and distributions their densities.
-/

namespace DensityGraph

namespace TransformFault

def toFailure : TransformFault → Failure
  | noAxis => .refused .index
  | freeLength k => .invalid (.freeLength k)
  | emptyInterval => .refused .value

end TransformFault

namespace Constraint

variable {α : Type} [Scalar α]

def fromFree (c : Constraint) (b : Interval) (dim : Shape) (free : Tensor α) :
    Except Failure (Tensor α) :=
  match c.forward (Scalar.literal b.lower) (Scalar.literal b.upper) free with
  | .error fault => .error fault.toFailure
  | .ok t => Refusal.lift (t.reshapeRows (dim.map Int.ofNat))

def logJacobianBetween (c : Constraint) (b : Interval) (free : Tensor α) :
    Except Failure (Tensor α) :=
  match c.logJacobian (Scalar.literal b.lower) (Scalar.literal b.upper) free with
  | .error fault => .error fault.toFailure
  | .ok t => .ok t

end Constraint

def Workspace.given {α : Type} (w : Workspace) (extras : List Value) : List (Argument α) :=
  extras.map fun v => .extra ⟨w.wide, v⟩

namespace Pass

variable {α : Type} [Scalar α]

def materializeData (w : Workspace) (id : NodeId) (n : Node) : Pass α Unit := do
  let value := n.value.array.addBatchAxis
  let tensor ←
    if ← ofRefusal (← get).dataAsConstants.truth then
      ofRefusal (w.tensorOf (.array false value))
    else do
      modify fun e => e.register id value
      placeholder w id (value.shape.map Int.ofNat)
  assign w id .value (.tensor tensor)

def materializeOperation [CustomCode α] (w : Workspace) (id : NodeId) (o : Operation)
    (arguments : List NodeId) (extras : List Value) : Pass α Unit := do
  let args ← arguments.mapM fun a => return argument (← entry w a .value)
  let args ← reconcile (args ++ w.given extras)
  let t ← ofExcept (o.apply ((← get).density w) args)
  assign w id .value (.tensor t)

def materializeLatent (w : Workspace) (id : NodeId) (dim : Shape) (b : Interval)
    (c : Constraint) : Pass α Unit := do
  match ← entry w id .free with
  | .density _ => throw (.refused .type)
  | .tensor free =>
      let adjustment ← ofExcept (c.logJacobianBetween b free)
      assign w id .adjustment (.tensor adjustment)
      let value ← ofExcept (c.fromFree b dim free)
      assign w id .value (.tensor value)

def materialize [CustomCode α] (w : Workspace) (id : NodeId) : Pass α Unit := do
  match w.node? id with
  | none => throw (.refused .attribute)
  | some n =>
      match n.role with
      | .data => materializeData w id n
      | .operation o arguments extras => materializeOperation w id o arguments extras
      | .latent b c _ => materializeLatent w id n.dim b c
      | .distribution _ => assign w id .value (.density id)

def assignFree (w : Workspace) (free : NodeId → Option (Except Refusal (Tensor α)))
    (id : NodeId) : Pass α Unit := do
  match free id with
  | none => throw (.noFreeEntry (w.label id))
  | some t =>
      let t ← ofRefusal t
      let size := ((w.node? id).map Node.freeSize).getD 0
      if t.rank ≠ 2 || t.shape.getLast? ≠ some size then
        throw (.invalid (.freeShape (w.label id) size t.shape))
      assign w id .free (.tensor t)

def materializeAll [CustomCode α] (w : Workspace) (d : Dag)
    (free : NodeId → Option (Except Refusal (Tensor α))) : Pass α Unit := do
  (d.latents w).forM (assignFree w free)
  d.nodes.forM (materialize w)

/-!
# Joint densities
-/

def distributionTerm (w : Workspace) (id : NodeId) : Pass α (Argument α) := do
  let f ← entry w id .value
  match ((w.node? id).bind Node.distribution?).bind Distribution.target with
  | none => throw (.untargeted (w.label id))
  | some t =>
      let x ← entry w t .value
      return .tensor (← apply w f (argument x))

def sumTerms (zero : Tensor α) (terms : List (Argument α)) : Pass α (Tensor α) := do
  match ← (← reconcile terms).mapM fun a => ofRefusal a.toTensor with
  | [] => return zero
  | t :: ts =>
      if ts.any fun u => u.shape ≠ t.shape then throw (.refused .value)
      return Tensor.sumOf t.shape (t :: ts)

def joint (w : Workspace) (distributions latents : List NodeId) (adjust : Bool) :
    Pass α (Tensor α) := do
  let terms ← distributions.mapM (distributionTerm w)
  let adjustments ←
    if adjust then latents.mapM fun id => return argument (← entry w id .adjustment)
    else pure []
  let p ← ofRefusal (w.settings.tensorPrecision w.wide)
  sumTerms (Tensor.full [1] (Scalar.constant p 0.0)) (terms ++ adjustments)

end Pass
end DensityGraph
