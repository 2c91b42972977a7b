import DensityGraph.Graph.Target
/-!
# Declaring distributions

A distribution is declared by its family and parameters.  Its shape is the one that
its parameters share, it may be truncated to an interval within its support, and its
first target is a new variable with that range.
-/

namespace DensityGraph

/-!
# Calls
-/

namespace Family

/-- The arguments by which a distribution of the family is declared, some with a
value that is taken where none is given. -/
def signature : Family → List (String × Option Value)
  | blank =>
      [("name", some (.text "no distribution")), ("dim", some .none),
        ("truncation", some .none), ("discrete", some (.bool false))]
  | uniform => [("min", none), ("max", none), ("dim", some .none)]
  | lkj => [("eta", none), ("dimension", some (.int 2))]
  | wishart => [("df", none), ("sigma", none)]
  | f =>
      (f.parameterNames.map fun name => (name, none)) ++ [("dim", some .none)] ++
        (if f.hasCdf then [("truncation", some .none)] else [])

end Family

def bindArguments : List (String × Option Value) → List Value → List (String × Value) →
    Except Refusal (List Value)
  | [], [], [] => .ok []
  | [], _, _ => .error .type
  | (name, default) :: rest, args, named => do
      let other := named.filter fun p => p.1 != name
      match args, named.lookup name, default with
      | x :: args, none, _ => return x :: (← bindArguments rest args other)
      | _ :: _, some _, _ => throw .type
      | [], some x, _ => return x :: (← bindArguments rest [] other)
      | [], none, some x => return x :: (← bindArguments rest [] other)
      | [], none, none => throw .type

namespace Dim

/-- The shape that parameters share, those of a single entry aside, if it agrees
with the one asked for. -/
def shared (dims : List Shape) (target : Option Shape) : Except Invalid Shape :=
  match (dims.filter (· ≠ [1, 1])).eraseDups, target with
  | [], none => .ok [1, 1]
  | [], some t => .ok t
  | [d], none => .ok d
  | [d], some t => if d = t then .ok t else .error (.targetDimension t d)
  | _, _ => .error (.parameterShapes dims)

end Dim

namespace Action

def checkDims (parameters : List NodeId) (target : Value) : Action Shape := do
  let ds ← dims parameters
  -- parameters that disagree are reported before the target is looked at
  match Dim.shared ds none with
  | .error reason => invalid reason
  | .ok d =>
      match target with
      | .none => return d
      | v =>
          match Dim.shared ds (some (← ofExcept v.toDim)) with
          | .error reason => invalid reason
          | .ok d => return d

/-!
# Numbers
-/

def fixedNumber (name : String) (v : Value) : Action Float := do
  let content ← ofRefusal v.toContent
  let bad : Action Float := do invalid (.notFiniteNumber name (← written v))
  if let .node _ := v then bad
  else
    match content with
    | .numeric a =>
        match a.toFloats.toList with
        | [x] => if x.isFinite then return x else bad
        | _ => bad
    | .texts shape _ => if shape.size = 1 then refuse .type else bad
    | .things shape _ => if shape.size = 1 then refuse .type else bad

/-- The numbers of a pair; a third member is looked at before it is refused. -/
def pairOf (v : Value) : Except Refusal Interval := do
  let xs ← members v
  let numbers ← (xs.take 3).mapM Value.toNumber
  match numbers with
  | [lower, upper] => return ⟨lower, upper⟩
  | _ => throw .value

/-- The interval to truncate a distribution to; one that equals the support is
none. -/
def checkTruncation (name : GivenName) (support : Interval) (hasCdf : Bool) (v : Value) :
    Action (Option Interval) := do
  if let .none := v then return none
  match pairOf v with
  | .error .overflow => refuse .overflow
  | .error _ => invalid (.truncationPair (← written v))
  | .ok t =>
      unless t.lower < t.upper do invalid (.truncationOrder t)
      if t.sameAs support then
        requireText name.isWritable
        report .nodes .debug ("Truncation of " ++ name.plain ++ " distribution equals its bounds")
        return none
      if t.lower < support.lower || support.upper < t.upper then
        invalid (.truncationSupport t support name.plain)
      unless hasCdf do invalid (.truncationUnsupported name.plain)
      return some t

/-!
# Nodes

A distribution is put down together with its first target, a variable on the truncation or
else on the support.
-/

def newTarget (family : Family) (dim : Shape) (range : Interval) : Action NodeId := do
  let build (range : Interval) (constraint : Value) : Action NodeId := do
    let b ← bounds (.float range.lower) (.float range.upper)
    putVariable b (← constraintOf b constraint) dim
  match family with
  | .lkj => build .whole (.text Constraint.correlation.tag)
  | .wishart => build .whole (.text Constraint.covariance.tag)
  | _ => build range .none

def newDistribution (family : Family) (name : GivenName) (isDiscrete : Bool)
    (support : Interval) (dim truncation : Value) : Action NodeId := do
  let t ← checkTruncation name support family.hasCdf truncation
  let id ← reserve
  let dim ← ofExcept dim.toDim
  let target ← newTarget family dim (t.getD support)
  put id (Node.lone dim (.blank dim)
    (.distribution ⟨family, name, isDiscrete, support, t, [], none, target⟩))
  addTarget id (.node target)
  return id

def addParameters (id : NodeId) (parameters : List (String × Value)) : Action Unit :=
  parameters.forM fun (name, v) => do let _ ← addParameter id v name

def declareSimple (family : Family) (parameters : List Value) (dim truncation : Value) :
    Action NodeId := do
  let ps ← parameters.mapM toNode
  let dim ← checkDims ps dim
  let id ← newDistribution family family.name family.isDiscrete family.support
    (.ofShape dim) truncation
  addParameters id (family.parameterNames.zip (ps.map .node))
  return id

def declareUniform (min max dim : Value) : Action NodeId := do
  let min ← fixedNumber "min" min
  let max ← fixedNumber "max" max
  unless min < max do invalid (.limits min max)
  let dim ← ofExcept dim.toDim
  let id ← newDistribution .uniform Family.uniform.name false ⟨min, max⟩ (.ofShape dim) .none
  addParameters id [("min", .float min), ("max", .float max)]
  return id

def declareBinomial (size prob dim : Value) : Action NodeId := do
  let size ← fixedNumber "size" size
  if size < 1.0 || !Dyadic.isWhole size then invalid (.trialCount size)
  let sizeNode ← toNode (.float size)
  let prob ← toNode prob
  let dim ← checkDims [prob] dim
  let id ← newDistribution .binomial Family.binomial.name true ⟨0.0, size⟩
    (.ofShape dim) .none
  addParameters id [("size", .node sizeNode), ("prob", .node prob)]
  return id

def checkScalar (name : String) (id : NodeId) : Action Unit := do
  let dim := (← node id).dim
  if dim ≠ [1, 1] then invalid (.notScalar name dim)

def declareLkj (eta dimension : Value) : Action NodeId := do
  let eta ← toNode eta
  checkScalar "eta" eta
  let id ← newDistribution .lkj Family.lkj.name false Interval.whole
    (.tuple [dimension, dimension]) .none
  addParameters id [("eta", .node eta)]
  return id

def declareWishart (df sigma : Value) : Action NodeId := do
  let df ← toNode df
  let sigma ← toNode sigma
  checkScalar "df" df
  let dim := (← node sigma).dim
  unless dim.length = 2 && dim.head? = dim.getLast? do
    invalid (.notSquareParameter "sigma" dim)
  let id ← newDistribution .wishart Family.wishart.name false Interval.whole
    (.ofShape dim) .none
  addParameters id [("df", .node df), ("sigma", .node sigma)]
  return id

def declareBound (family : Family) (args : List Value) : Action NodeId := do
  match family, args with
  | .blank, [name, dim, truncation, discrete] =>
      let w ← get
      let name := GivenName.ofValue w.written (fun id => (w.label id).isWritable) name
      newDistribution .blank name (← ofRefusal discrete.truth) Interval.whole dim truncation
  | .uniform, [min, max, dim] => declareUniform min max dim
  | .binomial, [size, prob, dim] => declareBinomial size prob dim
  | .lkj, [eta, dimension] => declareLkj eta dimension
  | .wishart, [df, sigma] => declareWishart df sigma
  | family, args =>
      let count := family.parameterNames.length
      declareSimple family (args.take count) (args.getD count .none)
        (args.getD (count + 1) .none)

def declare (family : Family) (args : List Value) (named : List (String × Value)) :
    Action NodeId := do
  let args ← ofRefusal (bindArguments family.signature args named)
  let id ← declareBound family args
  return (← distribution id).userNode

end Action
end DensityGraph
