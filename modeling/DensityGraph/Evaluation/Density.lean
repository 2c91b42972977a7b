import DensityGraph.Distribution.Cumulative
import DensityGraph.Distribution.MatrixDensity
import DensityGraph.Evaluation.Environment
/-!
# Densities of targets

The density of a distribution at a target reads the parameters from an environment,
brings all of them to one batch size, and is summed over everything but the batch
axis.
-/

namespace DensityGraph

namespace Tensor

variable {α : Type} [Scalar α]

def joinShapes : Shape → List (Tensor α) → Except Refusal Shape
  | s, [] => .ok s
  | s, t :: ts =>
      match s.join? t.shape with
      | some r => joinShapes r ts
      | none => .error (if s.length = t.rank then .type else .value)

def mapAll (f : List α → α) (ts : List (Tensor α)) : Except Refusal (Tensor α) := do
  let shape ← joinShapes [] ts
  return ofFn shape fun index => f (ts.map fun t => t.get (t.shape.project index))

def flatten (t : Tensor α) : Tensor α :=
  ofFn [t.shape.size] fun index => t.get (t.shape.unravel (index.headD 0))

end Tensor

namespace Distribution

variable {α : Type} [Scalar α]

def familyParameters (d : Distribution) (parameters : List (String × Argument α)) :
    Except Refusal (List (Tensor α)) :=
  d.family.parameterNames.mapM fun name =>
    match parameters.lookup name with
    | some a => a.toTensor
    | none => .error .missingKey

def lift (f : List α → α → α) (x : Tensor α) (parameters : List (Tensor α)) :
    Except Refusal (Tensor α) :=
  Tensor.mapAll (fun
    | v :: ps => f ps v
    | [] => Scalar.undefined) (x :: parameters)

def correlationDensity (dim : Shape) (eta x : Tensor α) : Except Refusal (Tensor α) := do
  let d := dim.headD 1
  if x.rank < 2 || Tensor.rows x.shape ≠ Tensor.columns x.shape then throw .value
  let eta := eta.flatten
  let batch ← Tensor.joinShapes (Tensor.batchShape x.shape) [eta]
  return Tensor.ofFn batch fun index =>
    MatrixDensity.correlation d (eta.get (eta.shape.project index))
      (Rows.ofTensor x (Shape.project (Tensor.batchShape x.shape) index))

def covarianceDensity (df sigma x : Tensor α) : Except Refusal (Tensor α) := do
  if x.rank < 2 || Tensor.rows x.shape ≠ Tensor.columns x.shape then throw .value
  if Tensor.columns sigma.shape ≠ Tensor.columns x.shape then throw .type
  let df := df.flatten
  let sigmaBatch := Tensor.batchShape sigma.shape
  let batch ← Tensor.joinShapes (Tensor.batchShape x.shape) [df]
  match Shape.join? batch sigmaBatch with
  | none => throw .value
  | some batch =>
      return Tensor.ofFn batch fun index =>
        MatrixDensity.covariance (Tensor.columns x.shape) (df.get (df.shape.project index))
          (Rows.ofTensor sigma (Shape.project sigmaBatch index))
          (Rows.ofTensor x (Shape.project (Tensor.batchShape x.shape) index))

def logDensity (d : Distribution) (dim : Shape) (parameters : List (String × Argument α))
    (x : Argument α) : Except Failure (Tensor α) :=
  if d.family = .blank then .error (.noDensity d.family.title)
  else Refusal.lift do
    let ps ← d.familyParameters parameters
    let x ← x.toTensor
    match d.family, ps with
    | .lkj, [eta] => correlationDensity dim eta x
    | .wishart, [df, sigma] => covarianceDensity df sigma x
    | family, ps => lift family.logDensity x ps

def logMass (d : Distribution) (label : Label) (precision : Precision)
    (parameters : List (String × Argument α)) : Except Failure (Tensor α) :=
  match d.truncation with
  | none => .error (.notTruncated label)
  | some t => Refusal.lift do
      let ps ← d.familyParameters parameters
      let lower : α := Scalar.constant precision t.lower
      let upper : α := Scalar.constant precision t.upper
      Tensor.mapAll (fun ps => d.family.logMass ps d.support t lower upper) ps

def densityOf (d : Distribution) (w : Workspace) (id : NodeId) (n : Node) :
    List (Argument α) → Except Failure (Tensor α)
  | [] => .error (.refused .type)
  | x :: values => do
      let parameters := (d.parameters.map Prod.fst).zip values
      let logs ← d.logDensity n.dim parameters x
      if d.truncation.isNone then return logs.sumEvent
      let p ← Refusal.lift (w.settings.tensorPrecision w.wide)
      let mass ← d.logMass (n.label id) p parameters
      return (← Refusal.lift (Tensor.elementwise (· - ·) logs mass)).sumEvent

end Distribution

/-!
# Densities in an environment

The density of a distribution reads the entries of its parameters when it is applied to a
target.  Arguments are brought to one batch size first.
-/

def Pass.argument {α : Type} : Entry α → Argument α
  | .tensor t => .tensor t
  | .density id => .density id

namespace Environment

variable {α : Type}

def read (e : Environment α) (w : Workspace) (id : NodeId) (kind : EntryKind) :
    Except Failure (Entry α) :=
  match e.get? id kind with
  | some x => .ok x
  | none => .error (.notMaterialized kind.name (w.label id))

def arguments (e : Environment α) (w : Workspace) (kind : EntryKind) (ids : List NodeId) :
    Except Failure (List (Argument α)) :=
  ids.mapM fun id => (e.read w id kind).map Pass.argument

def density [Scalar α] (e : Environment α) (w : Workspace) (id : NodeId) (x : Argument α) :
    Except Failure (Tensor α) :=
  match w.node? id with
  | none => .error (.refused .attribute)
  | some n =>
      match n.distribution? with
      | none => .error (.refused .type)
      | some d => do
          let values ← e.arguments w .value (d.parameters.map Prod.snd)
          d.densityOf w id n (← Batched.reconciled (x :: values))

end Environment

namespace Pass

variable {α : Type} [Scalar α]

def reconcile (args : List (Argument α)) : Pass α (List (Argument α)) :=
  ofExcept (Batched.reconciled args)

def density (w : Workspace) (id : NodeId) (x : Argument α) : Pass α (Tensor α) := do
  ofExcept ((← get).density w id x)

def apply (w : Workspace) (f : Entry α) (x : Argument α) : Pass α (Tensor α) :=
  match f with
  | .density id => density w id x
  | .tensor _ => throw (.refused .type)

end Pass
end DensityGraph
