import DensityGraph.Operation.Name
import DensityGraph.Graph.Label
import DensityGraph.Value.PartialArray
/-!
# Nodes

A node has a shape, a value of that shape, parents and children.  What sets it
apart is its role: it holds data, applies an operation, is a free variable, or makes
another node, its target, a random quantity.
-/

namespace DensityGraph

structure NodeValue where
  array : NumericArray
  hasUnknowns : Bool
deriving Inhabited

namespace NodeValue

/-- A value of which nothing is known. -/
def blank (shape : Shape) : NodeValue :=
  ⟨.floats .double (PartialArray.blank shape).entries, true⟩

def ofFloats (t : Tensor Float) : NodeValue :=
  ⟨.floats .double t, false⟩

def form (v : NodeValue) : ArrayForm :=
  if v.hasUnknowns then .unknowns else .plain

theorem shape_blank (shape : Shape) : (blank shape).array.shape = shape := rfl

end NodeValue

structure Distribution where
  family : Family
  name : GivenName
  isDiscrete : Bool
  support : Interval
  truncation : Option Interval
  parameters : List (String × NodeId)
  target : Option NodeId
  userNode : NodeId
deriving Inhabited

namespace Distribution

def range (d : Distribution) : Interval :=
  d.truncation.getD d.support

end Distribution

inductive Role where
  | data
  | operation (operation : Operation) (arguments : List NodeId) (extras : List Value)
  | latent (bounds : Interval) (constraint : Constraint) (freeSize : Nat)
  | distribution (d : Distribution)
deriving Inhabited

/-- A node; `strays` are values that were to become parents and are no nodes. -/
structure Node where
  dim : Shape
  value : NodeValue
  parents : List NodeId
  strays : List Value
  children : List NodeId
  distribution : Option NodeId
  representations : List (String × NodeId)
  role : Role
deriving Inhabited

namespace Node

def lone (dim : Shape) (value : NodeValue) (role : Role) : Node :=
  ⟨dim, value, [], [], [], none, [], role⟩

def distribution? (n : Node) : Option Distribution :=
  match n.role with
  | .distribution d => some d
  | _ => none

def isData (n : Node) : Bool :=
  match n.role with
  | .data => true
  | _ => false

def isOperation (n : Node) : Bool :=
  match n.role with
  | .operation _ _ _ => true
  | _ => false

def isLatent (n : Node) : Bool :=
  match n.role with
  | .latent _ _ _ => true
  | _ => false

def isDistribution (n : Node) : Bool :=
  n.distribution?.isSome

def freeSize (n : Node) : Nat :=
  match n.role with
  | .latent _ _ k => k
  | _ => 0

def label (n : Node) (id : NodeId) : Label :=
  match n.role with
  | .data => .data id n.dim
  | .operation o _ _ => .operation id o.name n.dim
  | .latent bounds constraint _ => .latent id constraint bounds n.dim
  | .distribution d => .distribution id d.family d.name n.dim

def representation? (n : Node) (name : String) : Option NodeId :=
  n.representations.lookup name

end Node
end DensityGraph
