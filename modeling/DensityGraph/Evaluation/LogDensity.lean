import DensityGraph.Evaluation.Materialize
import DensityGraph.Scalar.Sloped
/-!
# Joint log-densities

The log-density of a model is a function of its free state, which holds a tensor of
free vectors for every variable.  Data come from the data nodes unless other values
are fed.
-/

namespace DensityGraph

abbrev FreeState := List (Int × NumericArray)

/-- Pairs in which each key occurs once, with its last value, in the order in which
the keys first occur. -/
def lastOfEach {κ β : Type} [BEq κ] (pairs : List (κ × β)) : List (κ × β) :=
  ((pairs.map Prod.fst).eraseDups).filterMap fun k =>
    (pairs.reverse.lookup k).map fun v => (k, v)

namespace Dag

def dataFeed (d : Dag) (w : Workspace) : List (NodeId × NumericArray) :=
  (d.data w).filterMap fun id =>
    (w.node? id).map fun n => (id, n.value.array.addBatchAxis)

end Dag

def setPair {κ β : Type} [BEq κ] (k : κ) (v : β) (pairs : List (κ × β)) : List (κ × β) :=
  if pairs.any fun p => p.1 == k then pairs.map fun p => if p.1 == k then (k, v) else p
  else pairs ++ [(k, v)]

namespace Action

def dataNode (d : Dag) (key : Value) : Action NodeId := do
  let w ← get
  let id : Option NodeId :=
    match key with
    | .node id => some id
    | v => v.keyNumber?.bind Int.toNat?
  match id with
  | some id => if d.nodes.contains id && w.has Node.isData id then return id
  | none => pure ()
  requireText (w.canWrite key)
  invalid (.notDataOfGraph (key.written w.written))

def batched (id : NodeId) (v : Value) : Action (Tensor Float) := do
  let t ← ofRefusal v.toFloats
  let n ← node id
  if t.shape = n.dim then return t.broadcast (1 :: t.shape)
  if t.shape.tail ≠ n.dim then invalid (.feedShape t.shape (n.label id))
  return t

def feed (d : Dag) (data : List (Value × Value)) : Action (List (NodeId × Value)) := do
  let w ← get
  let current := (d.dataFeed w).map fun (id, a) => (id, Value.array false a)
  if data.isEmpty then return current
  if ← ofRefusal w.settings.dataAsConstants.truth then
    report .dag .warning "Data nodes are compiled as constants, ignoring new data"
  data.foldlM (fun fed (key, v) => do
    let id ← dataNode d key
    let t ← batched id v
    return setPair id (Value.array false (.floats .double t)) fed) current

end Action

/-!
# Evaluation

A pass over the graph fills an environment.  The density is read from it, and so are the
values of the variables.
-/

namespace Dag

variable {α : Type} [Scalar α]

def environment [CustomCode α] (d : Dag) (w : Workspace) (feed : List (NodeId × Value))
    (free : NodeId → Option (Except Refusal (Tensor α))) : Except Failure (Environment α) := do
  let e ← Environment.start w feed
  match (Pass.materializeAll w d free).run e with
  | (.ok _, e) => return e
  | (.error f, _) => throw f

def jointIn (d : Dag) (w : Workspace) (e : Environment α) (adjust : Bool) :
    Except Failure (Tensor α) :=
  ((Pass.joint w (d.distributions w) (d.latents w) adjust).run e).1

def jointAt [CustomCode α] (d : Dag) (w : Workspace) (feed : List (NodeId × Value))
    (free : NodeId → Option (Except Refusal (Tensor α))) (adjust : Bool) :
    Except Failure (Tensor α) := do
  let e ← d.environment w feed free
  d.jointIn w e adjust

end Dag

def Workspace.freeOf (w : Workspace) (free : List (Int × Value)) (id : NodeId) :
    Option (Except Refusal (Tensor Number)) :=
  (free.lookup (id : Int)).map w.tensorOf

namespace Action

variable [CustomCode Number]

def materialize (d : Dag) (free : List (Int × Value)) (data : List (Value × Value)) :
    Action (Environment Number) := do
  let fed ← feed d data
  let w ← get
  ofExcept (d.environment w fed (w.freeOf free))

def logDensity (d : Dag) (free : List (Int × Value)) (data : List (Value × Value))
    (adjust : Bool) : Action (Tensor Number) := do
  let fed ← feed d data
  let w ← get
  ofExcept (d.jointAt w fed (w.freeOf free) adjust)

def constrained (d : Dag) (free : List (Int × Value)) (data : List (Value × Value)) :
    Action (List (NodeId × Tensor Number)) := do
  let e ← materialize d free data
  let w ← get
  (d.latents w).mapM fun id =>
    match e.get? id .value with
    | some (.tensor t) => return (id, t)
    | _ => do throw (.notMaterialized EntryKind.value.name (w.label id))

end Action

/-!
# Gradients

The entries of all free tensors are numbered throughout, and each carries a slope of one in
its own direction.
-/

namespace FreeEntries

def number : Nat → List (Int × Tensor Number) → List (Int × Nat × Tensor Number)
  | _, [] => []
  | start, (key, t) :: rest => (key, start, t) :: number (start + t.shape.size) rest

def sloped (start : Nat) (t : Tensor Number) : Tensor Sloped :=
  Tensor.ofFn t.shape fun index => Sloped.entry (start + t.shape.offset index) (t.get index)

def gradient (p : Precision) (slopes : Array (Option Number)) (start : Nat)
    (t : Tensor Number) : Tensor Number :=
  Tensor.ofFn t.shape fun index =>
    match slopes.getD (start + t.shape.offset index) none with
    | some s => ⟨p.round s.value, p⟩
    | none => ⟨0.0, p⟩

def table (size : Nat) (s : Slopes) : Array (Option Number) :=
  s.foldl (fun a (i, x) => a.setIfInBounds i (some x)) (Array.replicate size none)

end FreeEntries

namespace Action

/-- The joint log-density and its gradient in every entry of the free state, also in
entries that belong to no variable. -/
def valueAndGradient [CustomCode Sloped] (d : Dag) (free : List (Int × Value))
    (data : List (Value × Value)) (adjust : Bool) :
    Action (Tensor Number × List (Int × Tensor Number)) := do
  let w ← get
  let tensors ← free.mapM fun (key, v) => do
    let t : Tensor Number ← ofRefusal (w.tensorOf v)
    return (key, t)
  let numbered := FreeEntries.number 0 tensors
  let size := (tensors.map fun p => p.2.shape.size).foldl (· + ·) 0
  let fed ← feed d data
  let w ← get
  let state (id : NodeId) : Option (Except Refusal (Tensor Sloped)) :=
    (numbered.lookup (id : Int)).map fun (start, t) => .ok (FreeEntries.sloped start t)
  let joint ← ofExcept (d.jointAt w fed state adjust)
  let total := Scalar.sum joint.toList
  let p ← ofRefusal (w.settings.tensorPrecision w.wide)
  let slopes := FreeEntries.table size total.slopes
  return (joint.map Sloped.value,
    numbered.map fun (key, start, t) => (key, FreeEntries.gradient p slopes start t))

end Action

/-!
# Log-density functions

A function keeps its graph and what it has traced, by the keys and shapes of the free states
that it was called with.
-/

/-- The joint log-density as a function of the free state, with the data that were
current when it was made.  A traced function keeps to the workspace in which it first
met free states of a form. -/
structure DensityFunction where
  dag : Dag
  adjust : Bool
  isTraced : Bool
  feed : List (NodeId × Value)
  traces : List (List (Int × Shape) × Workspace)
deriving Inhabited

namespace DensityFunction

def form (free : List (Int × Value)) : List (Int × Shape) :=
  free.map fun (key, v) =>
    (key, match v.shape with
      | .ok s => s
      | .error _ => [])

def call [CustomCode Number] (f : DensityFunction) (w : Workspace) (free : List (Int × Value)) :
    Except Failure (Tensor Number) × DensityFunction :=
  let known := if f.isTraced then f.traces.lookup (form free) else none
  let v := known.getD w
  let result := f.dag.jointAt v f.feed (v.freeOf free) f.adjust
  match result, known with
  | .ok _, none =>
      (result, if f.isTraced then { f with traces := f.traces ++ [(form free, w)] } else f)
  | _, _ => (result, f)

end DensityFunction

namespace Action

def logDensityFunction (d : Dag) (adjust isTraced : Bool) : Action DensityFunction := do
  let w ← get
  return ⟨d, adjust, isTraced, (d.dataFeed w).map fun (id, a) => (id, .array false a), []⟩

end Action
end DensityGraph
