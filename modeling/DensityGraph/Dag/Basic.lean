import DensityGraph.Dag.Component
import DensityGraph.Dag.Order
/-!
# Compiled graphs

A compiled graph lists the nodes of a component so that parents come before their
children.  Every distribution in it has a target, and discrete distributions have
been observed.
-/

namespace DensityGraph

structure Dag where
  nodes : List NodeId
  edges : List (NodeId × NodeId)
deriving Repr, Inhabited

namespace Workspace

def has (w : Workspace) (p : Node → Bool) (id : NodeId) : Bool :=
  match w.node? id with
  | some n => p n
  | none => false

def edges (w : Workspace) (ids : List NodeId) : List (NodeId × NodeId) :=
  ids.flatMap fun c => (w.parents c).map fun p => (p, c)

def targetFault (w : Workspace) (id : NodeId) : Option Invalid :=
  match (w.node? id).bind Node.distribution? with
  | none => none
  | some d =>
      match d.target with
      | none => some (.noTarget (w.label id))
      | some t =>
          if d.isDiscrete && w.has Node.isLatent t then some (.discreteVariable (w.label id))
          else none

/-- The compiled graph of some starting points. -/
def compile (w : Workspace) (starts : List NodeId) : Except Failure Dag :=
  let ids := w.component starts
  if starts.isEmpty then .error (.invalid .noNodes)
  else if ids.any (w.has fun n => !n.strays.isEmpty) then .error (.refused .attribute)
  else
    let order := Order.sorted w.parents ids
    if order.length < ids.length then .error (.invalid .cycle)
    else
      match order.findSome? w.targetFault with
      | some reason => .error (.invalid reason)
      | none => .ok ⟨order, w.edges ids⟩

end Workspace

namespace Dag

def select (d : Dag) (w : Workspace) (p : Node → Bool) : List NodeId :=
  d.nodes.filter (w.has p)

def latents (d : Dag) (w : Workspace) : List NodeId :=
  d.select w Node.isLatent

def data (d : Dag) (w : Workspace) : List NodeId :=
  d.select w Node.isData

def operations (d : Dag) (w : Workspace) : List NodeId :=
  d.select w Node.isOperation

def distributions (d : Dag) (w : Workspace) : List NodeId :=
  d.select w Node.isDistribution

def sortedEdges (d : Dag) : List (NodeId × NodeId) :=
  d.edges.mergeSort fun a b => a.1 < b.1 || (a.1 == b.1 && a.2 ≤ b.2)

def written (d : Dag) : String :=
  "Dag(nodes=" ++ toString d.nodes.length ++ ")"

def summary (d : Dag) (w : Workspace) : String :=
  let count (ids : List NodeId) := toString ids.length
  "Built a DAG with " ++ count d.nodes ++ " nodes: " ++ count (d.latents w) ++
    " variables, " ++ count (d.data w) ++ " data, " ++ count (d.operations w) ++
    " operations, " ++ count (d.distributions w) ++ " distributions"

end Dag

namespace Action

/-- Compiles the graph of some starting points, which have to be nodes. -/
def compile (starts : List Value) : Action Dag := do
  let ids ← starts.mapM nodeId
  let dag ← ofExcept ((← get).compile ids)
  report .dag .info (dag.summary (← get))
  return dag

end Action
end DensityGraph
