import DensityGraph.Graph.Workspace
/-!
# Edges

An edge leads from a parent to a child and is kept on both sides.
-/

namespace DensityGraph

namespace Node

def addParent (p : NodeId) (n : Node) : Node :=
  if p ∈ n.parents then n else { n with parents := n.parents ++ [p] }

def addChild (c : NodeId) (n : Node) : Node :=
  if c ∈ n.children then n else { n with children := n.children ++ [c] }

def removeParent (p : NodeId) (n : Node) : Node :=
  { n with parents := n.parents.filter (· != p) }

def removeChild (c : NodeId) (n : Node) : Node :=
  { n with children := n.children.filter (· != c) }

def addStray (v : Value) (n : Node) : Node :=
  if n.strays.any v.same then n else { n with strays := n.strays ++ [v] }

def removeStray (v : Value) (n : Node) : Node :=
  { n with strays := n.strays.filter fun u => !v.same u }

end Node

namespace Workspace

def link (w : Workspace) (child parent : NodeId) : Workspace :=
  (w.update child (Node.addParent parent)).update parent (Node.addChild child)

def unlink (w : Workspace) (child parent : NodeId) : Workspace :=
  (w.update child (Node.removeParent parent)).update parent (Node.removeChild child)

end Workspace

namespace Action

def addParent (child : NodeId) (parent : Value) : Action Unit := do
  match parent with
  | .node p =>
      if p = child then invalid (.ownParent (← label child))
      modify fun w => w.link child p
  | v =>
      update child (Node.addStray v)
      refuse .attribute

def removeParent (child : NodeId) (parent : Value) : Action Unit := do
  match parent with
  | .node p => modify fun w => w.unlink child p
  | v =>
      update child (Node.removeStray v)
      refuse .attribute

end Action
end DensityGraph
