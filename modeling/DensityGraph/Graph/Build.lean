import DensityGraph.Constraint.Inverse
import DensityGraph.Graph.Edge
import DensityGraph.Operation.Resolve
import DensityGraph.Value.Conversion
/-!
# Building nodes

Data are wrapped, operations get the shape that their arguments broadcast to, and
variables get the constraint that belongs to their bounds.  All checks come before
the first change of another node.
-/

namespace DensityGraph

/-!
# Data
-/

namespace Action

def newData (v : Value) : Action NodeId := do
  let data ← ofExcept (v.toData (← get).kindOf)
  let id ← reserve
  if data.shape.any (· < 1) then invalid (.dimensions (data.shape.map Int.ofNat))
  put id (Node.lone data.shape (.ofFloats data) .data)
  return id

def toNode : Value → Action NodeId
  | .node id => pure id
  | v => newData v

def asData : Value → Action NodeId
  | .node id => do
      if (← node id).isData then return id
      invalid (.notData (← label id))
  | v => newData v

/-!
# Values
-/

def toNodeValue : Value → Except Refusal NodeValue
  | .array false a => .ok ⟨a, false⟩
  | v => v.toFloats.map NodeValue.ofFloats

def assignValue (id : NodeId) (v : NodeValue) : Action Unit := do
  let n ← node id
  if v.array.shape ≠ n.dim then
    invalid (.valueShape (n.label id) n.dim v.array.shape)
  update id fun n => { n with value := v }

def setValue (id : NodeId) (v : Value) : Action Unit := do
  assignValue id (← ofRefusal (toNodeValue v))

end Action

/-!
# Operations

The shape of an operation is the common shape of its arguments, unless a shape or a rule is
given.  On each axis, sizes of one agree with any other size.
-/

def ShapeRule.apply (r : ShapeRule) (dims : List Shape) : Except Refusal Value := do
  match ← r.sizes? dims with
  | none => return .none
  | some sizes => return .tuple (sizes.map .int)

namespace Dim

def axis (dims : List Shape) (k : Nat) : List Nat :=
  dims.map fun d => d.getD k 1

def agree (sizes : List Nat) : Bool :=
  let large := sizes.filter (· ≠ 1)
  large.all (· = large.headD 1)

/-- The greatest size of each axis, if the shapes have equally many axes and agree
along each. -/
def broadcast (operation : String) (dims : List Shape) : Except Invalid Shape :=
  match dims with
  | [] => .error (.noArguments operation)
  | d :: rest =>
      if rest.any fun e => e.length ≠ d.length then .error (.argumentRanks operation dims)
      else
        match (List.range d.length).find? fun k => !agree (axis dims k) with
        | some k => .error (.argumentShapes operation dims k)
        | none => .ok ((List.range d.length).map fun k => (axis dims k).foldl max 0)

end Dim

namespace Action

def dims (ids : List NodeId) : Action (List Shape) :=
  ids.mapM fun id => return (← node id).dim

def operationDim (name : String) (arguments : List NodeId) (dim : Value) : Action Shape := do
  match dim with
  | .none =>
      match Dim.broadcast name (← dims arguments) with
      | .ok d => return d
      | .error reason => invalid reason
  | .rule r => do
      let d ← ofRefusal (r.apply (← dims arguments))
      ofExcept d.toDim
  | d => ofExcept d.toDim

def members : Value → Except Refusal (List Value)
  | .list xs => .ok xs
  | .tuple xs => .ok xs
  | .text s => .ok (s.toList.map fun c => .text (String.singleton c))
  | .array _ a =>
      match a.shape with
      | [] => .error .type
      | [_] => .ok (Value.entriesOf a)
      | n :: _ => .ok ((List.range n).map fun i => .array false (row a i))
  | _ => .error .type
where
  row (a : NumericArray) (i : Nat) : NumericArray :=
    match a with
    | .floats p t => .floats p (t.row i)
    | .integers k t => .integers k (t.row i)
    | .booleans t => .booleans (t.row i)

/-- Builds an operation node; `representations` names functions of it that are known
nodes. -/
def newOperation (operation : Value) (args : List Value) (dim : Value) (extras : Value)
    (value : Value) (representations : List (String × NodeId)) : Action NodeId := do
  let o ← ofExcept (Operation.resolve (← get).written operation)
  let arguments ← args.mapM toNode
  let dim ← operationDim o.name arguments dim
  if let .none := value then pure ()
  else
    let shape ← ofRefusal value.shape
    if shape ≠ dim then invalid (.resultShape shape o.name dim)
  let id ← reserve
  let nodeValue ←
    match value with
    | .none => pure (NodeValue.blank dim)
    | v => ofRefusal (toNodeValue v)
  let extras ← ofRefusal (members extras)
  put id { Node.lone dim nodeValue (.operation o arguments extras) with
    representations := representations }
  arguments.forM fun a => modify fun w => w.link id a
  return id

def operationOf (o : NamedOperation) (args : List NodeId) (dim : Value) : Action NodeId :=
  newOperation (.text o.name) (args.map .node) dim (.tuple []) .none []

end Action

/-!
# Variables

A bound has to be a single number, and bounds that are there have to be finite.  The length
of the free vector follows from the constraint and the shape.
-/

namespace Interval

def isProper (b : Interval) : Bool :=
  match Constraint.ofBounds b with
  | .unconstrained => true
  | .upperBounded => b.upper.isFinite
  | .lowerBounded => b.lower.isFinite
  | _ => b.lower.isFinite && b.upper.isFinite

end Interval

namespace Action

def bound (which : String) (v : Value) : Action Float := do
  match ← ofRefusal v.toContent with
  | .numeric (.booleans _) => invalid (.boundNotNumeric which (← written v))
  | .numeric a =>
      match a.toFloats.toList with
      | [x] => return x
      | _ => invalid (.boundNotNumeric which (← written v))
  | _ => invalid (.boundNotNumeric which (← written v))

def bounds (lower upper : Value) : Action Interval := do
  let lower ← bound "lower" lower
  let upper ← bound "upper" upper
  let b : Interval := ⟨lower, upper⟩
  unless b.isProper do invalid (.boundsNotFinite b)
  if b.upper ≤ b.lower then invalid (.boundsOrder b)
  return b

/-- The constraint of a variable: the one asked for, which allows no bounds, or the
one of the bounds. -/
def constraintOf (b : Interval) (constraint : Value) : Action Constraint := do
  match constraint with
  | .none => return Constraint.ofBounds b
  | v =>
      if Constraint.ofBounds b ≠ .unconstrained then
        invalid (.boundsUnwanted (v.display (← get).written) b)
      ofExcept (Constraint.resolve (← get).written v)

def freeSizeOf (c : Constraint) (dim : Shape) : Action Nat :=
  match c.freeSize? (dim.map Int.ofNat) with
  | some k => return k.toNat
  | none => invalid (.notSquare c.tag (dim.map Int.ofNat))

def putVariable (b : Interval) (c : Constraint) (dim : Shape) : Action NodeId := do
  let freeSize ← freeSizeOf c dim
  let id ← reserve
  put id (Node.lone dim (.blank dim) (.latent b c freeSize))
  return id

def newVariable (lower upper dim constraint : Value) : Action NodeId := do
  let b ← bounds lower upper
  let c ← constraintOf b constraint
  putVariable b c (← ofExcept dim.toDim)

def newBounded (truncation dim : Value) : Action NodeId := do
  match truncation with
  | .none => newVariable (.float Interval.whole.lower) (.float Interval.whole.upper) dim .none
  | v =>
      match ← ofRefusal (members v) with
      | [lower, upper] => newVariable lower upper dim .none
      | _ => refuse .value

def toFree (id : NodeId) (v : Value) : Action (List Number) := do
  let n ← node id
  match n.role with
  | .latent b c _ =>
      let broadcast : Option (Tensor Float) ←
        match v.toFloats with
        | .ok t => pure (t.broadcastTo? n.dim)
        | .error .value => pure none
        | .error r => refuse r
      match broadcast with
      | none => invalid (.initialShape (← ofRefusal v.shape) (n.label id))
      | some t =>
          let y : Tensor Number := t.map Number.literal
          match c.inverse (.literal b.lower) (.literal b.upper) y with
          | .ok free => return free
          | .error misfit =>
              let (lower, upper) := c.writtenBounds (Shortest.text b.lower)
                (Shortest.text b.upper)
              invalid (.rangeOf (n.label id) ⟨misfit, c, lower, upper, t.toList⟩)
  | _ => refuse .attribute

end Action
end DensityGraph
