import DensityGraph.Proofs.Dag.Compile
import DensityGraph.Proofs.Graph.Ordered
/-!
# Graphs that can be compiled

A graph that has only been built, without a change of edges or targets by hand, has no
cycle, and no target is missing.  What is left to object to is a discrete distribution that
has not been observed.
-/

namespace DensityGraph
namespace Workspace

variable {w : Workspace} {starts : List NodeId} {x : NodeId} {reason : Invalid}

theorem Targeted.isSome (h : w.Targeted) {n : Node} {d : Distribution}
    (hn : w.node? x = some n) (hd : n.distribution? = some d) : d.target.isSome = true := by
  cases htarget : d.target with
  | some t => rfl
  | none =>
      refine absurd ⟨?_, ?_⟩ (h x)
      · rw [has_of_node? hn, Node.isDistribution, hd]
        rfl
      · rw [target?_of_node? hn, Node.target?, hd]
        exact htarget

end Workspace

namespace Action

open Workspace

variable {w : Workspace} {starts : List NodeId} {x : NodeId}

end Action
end DensityGraph
