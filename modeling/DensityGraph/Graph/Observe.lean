import DensityGraph.Graph.Target
/-!
# Observation

Data that are observed as the outcome of a distribution take the place of its
target.
-/

namespace DensityGraph

def Interval.admits (i : Interval) (values : Tensor Float) : Bool :=
  values.toList.all fun x => !(x < i.lower) && !(i.upper < x)

def areWhole (values : Tensor Float) : Bool :=
  values.toList.all Dyadic.isWhole

namespace Action

def observe (data user : Value) : Action NodeId := do
  let u ← nodeId user
  match (← node u).distribution with
  | none => invalid (.noDistribution (← label u))
  | some id =>
      let y ← asData data
      let n ← node y
      if n.distribution.isSome then invalid (.hasDistribution (← label y))
      let dim := (← node id).dim
      if n.dim ≠ dim then invalid (.observedShape n.dim (← label id) dim)
      let d ← distribution id
      let values := n.value.array.toFloats
      unless d.range.admits values do invalid (.observedOutside d.range (← label id))
      if d.isDiscrete && !areWhole values then invalid (.observedFraction (← label id))
      removeTarget id
      addTarget id (.node y)
      updateDistribution id fun d => { d with userNode := y }
      requireText (← label id).isWritable
      report .nodes .debug
        ("Observed " ++ (← label y).text ++ " for " ++ (← label id).text)
      return y

end Action
end DensityGraph
