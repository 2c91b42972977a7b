import DensityGraph.Graph.Build
/-!
# Targets and parameters

A distribution node has at most one target, and a node is the target of at most one
distribution.  The target and the parameters are parents of the distribution.
-/

namespace DensityGraph

namespace Node

def mapDistribution (f : Distribution → Distribution) (n : Node) : Node :=
  match n.role with
  | .distribution d => { n with role := .distribution (f d) }
  | _ => n

end Node

namespace Distribution

def setTarget (target : Option NodeId) (d : Distribution) : Distribution :=
  { d with target := target }

/-- Sets a parameter; a name that is in use keeps its place. -/
def setParameter (name : String) (id : NodeId) (d : Distribution) : Distribution :=
  if d.parameters.any fun p => p.1 == name then
    { d with parameters := d.parameters.map fun p => if p.1 == name then (name, id) else p }
  else { d with parameters := d.parameters ++ [(name, id)] }

end Distribution

namespace Action

/-- The distribution of a distribution node; only such a node has what is asked
for. -/
def distribution (id : NodeId) : Action Distribution := do
  match (← node id).distribution? with
  | some d => return d
  | none => refuse .attribute

def updateDistribution (id : NodeId) (f : Distribution → Distribution) : Action Unit :=
  update id (Node.mapDistribution f)

def addTarget (id : NodeId) (target : Value) : Action Unit := do
  let d ← distribution id
  if d.target.isSome then throw (.alreadyTargeted (← label id))
  let t ← nodeId target
  let n ← node t
  let dim := (← node id).dim
  if n.dim ≠ dim then invalid (.targetShape (← label id) dim n.dim)
  if n.distribution.isSome then invalid (.hasDistribution (← label t))
  updateDistribution id (Distribution.setTarget (some t))
  addParent id target
  assignValue id n.value
  update t fun n => { n with distribution := some id }

def targetOf (id : NodeId) : Action NodeId := do
  match (← distribution id).target with
  | some t => return t
  | none => throw (.untargeted (← label id))

def removeTarget (id : NodeId) : Action Unit := do
  let t ← targetOf id
  removeParent id (.node t)
  update t fun n => { n with distribution := none }
  updateDistribution id (Distribution.setTarget none)

def addParameter (id : NodeId) (parameter : Value) (name : String) : Action NodeId := do
  let _ ← distribution id
  let p ← toNode parameter
  addParent id (.node p)
  updateDistribution id (Distribution.setParameter name p)
  return p

end Action
end DensityGraph
