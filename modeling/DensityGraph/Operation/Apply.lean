import DensityGraph.Failure
import DensityGraph.Tensor.Matrix
import DensityGraph.Tensor.Batch
import DensityGraph.Value.Coerce
/-!
# Application of operations

An operation is applied to tensors, which have a batch axis, and to extra arguments
that are passed as they are.  Shapes that do not fit are refused by the entries of the
operation table.  What a custom function computes is up to the caller who supplies it.
-/

namespace DensityGraph

inductive Argument (α : Type) where
  | tensor (t : Tensor α)
  | density (id : NodeId)
  | extra (x : Extra)
deriving Inhabited

namespace Argument

variable {α : Type} [Scalar α]

/-- The entries of an array as scalars; whole numbers and truth values are
literals. -/
def ofArray : NumericArray → Tensor α
  | .floats p t => t.map (Scalar.constant p)
  | .integers _ t => t.map fun n => Scalar.literal (Float.ofInt n)
  | .booleans t => t.map fun b => Scalar.literal (if b then 1.0 else 0.0)

def toTensor : Argument α → Except Refusal (Tensor α)
  | tensor t => .ok t
  | density _ => .error .type
  | extra x =>
      match x.value.narrow x.wide with
      | .array _ a => .ok (ofArray a)
      | .bool b => (Value.bool b).toFloat.map fun x => Tensor.scalar (Scalar.literal x)
      | .int n => (Value.int n).toFloat.map fun x => Tensor.scalar (Scalar.literal x)
      | .float x => .ok (Tensor.scalar (Scalar.literal x))
      | _ => .error .type

def toSizes : Argument α → Except Refusal (List Int)
  | extra ⟨_, .list xs⟩ => xs.mapM size
  | extra ⟨_, .tuple xs⟩ => xs.mapM size
  | extra ⟨_, .array _ (.integers _ t)⟩ => if t.rank = 1 then .ok t.toList else .error .type
  | _ => .error .type
where
  size : Value → Except Refusal Int
    | .int n => .ok n
    | .bool b => .ok (if b then 1 else 0)
    | _ => .error .type

instance : Batched (Argument α) where
  batch?
    | tensor t => t.shape.head?
    | density _ => none
    | extra x => Batched.batch? x
  repeatRows n
    | tensor t => tensor (t.repeatRows n)
    | density id => density id
    | extra x => extra (Batched.repeatRows n x)

end Argument

namespace Tensor

variable {α : Type} [Scalar α]

def elementwise (f : α → α → α) (t u : Tensor α) : Except Refusal (Tensor α) :=
  match t.map₂? f u with
  | some r => .ok r
  | none => .error (if t.rank = u.rank then .type else .value)

/-- The matrix product; a vector counts as a row on the left and as a column on the
right. -/
def matmul (t u : Tensor α) : Except Refusal (Tensor α) := do
  if t.rank = 0 || u.rank = 0 then throw .value
  let left := if t.rank = 1 then t.broadcast (1 :: t.shape) else t
  let right := if u.rank = 1 then ofFn (u.shape ++ [1]) fun index => u.get (index.take 1) else u
  let some batch := Shape.join? (batchShape left.shape) (batchShape right.shape)
    | throw .value
  if columns left.shape ≠ rows right.shape then throw .type
  let product := product batch left right
  let shape := batch ++
    (if t.rank = 1 then [] else [rows left.shape]) ++
    (if u.rank = 1 then [] else [columns right.shape])
  match product.reshape? shape with
  | some r => return r
  | none => throw .value

def reshapeRows (t : Tensor α) (dim : List Int) : Except Refusal (Tensor α) :=
  match Shape.complete? t.shape.size (-1 :: dim) with
  | none => .error .type
  | some shape =>
      match t.reshape? shape with
      | none => .error .type
      | some r => .ok r

end Tensor

namespace NamedOperation

variable {α : Type} [Scalar α]

def function? : NamedOperation → Option (α → α)
  | negative => some (- ·)
  | exp => some Scalar.exp
  | log => some Scalar.log
  | sqrt => some Scalar.sqrt
  | abs => some Scalar.abs
  | square => some Scalar.square
  | sigmoid => some Scalar.sigmoid
  | softplus => some Scalar.softplus
  | tanh => some Scalar.tanh
  | _ => none

def function₂? : NamedOperation → Option (α → α → α)
  | add => some (· + ·)
  | subtract => some (· - ·)
  | multiply => some (· * ·)
  | divide => some (· / ·)
  | power => some Scalar.power
  | _ => none

def apply₁ (o : NamedOperation) (t : Tensor α) : Except Refusal (Tensor α) :=
  match (o.function? : Option (α → α)) with
  | some f => .ok (t.map f)
  | none =>
      match o with
      | transpose =>
          match t.transpose? with
          | some r => .ok r
          | none => .error .index
      | sum => .ok t.sumKeep
      | mean => .ok t.meanKeep
      | _ => .error .type

def apply₂ (o : NamedOperation) (t u : Tensor α) : Except Refusal (Tensor α) :=
  match (o.function₂? : Option (α → α → α)) with
  | some f => Tensor.elementwise f t u
  | none =>
      match o with
      | matmul => Tensor.matmul t u
      | _ => .error .type

def apply (o : NamedOperation) (args : List (Argument α)) : Except Refusal (Tensor α) := do
  match o, args with
  | reshape, [x, dim] => (← x.toTensor).reshapeRows (← dim.toSizes)
  | o, [x] => o.apply₁ (← x.toTensor)
  | o, [x, y] => o.apply₂ (← x.toTensor) (← y.toTensor)
  | _, _ => throw .type

end NamedOperation

/-!
# Custom functions
-/

inductive Operand (α : Type) where
  | tensor (t : Tensor α)
  | density (f : Argument α → Except Failure (Tensor α))
  | extra (x : Extra)

/-- What a custom function may end in apart from a tensor: grounds of its own, or the failure of
a density that it applied. -/
inductive CustomFault where
  | own (r : Refusal)
  | passed (f : Failure)
deriving Inhabited

def CustomFault.toFailure : CustomFault → Failure
  | own r => .refused r
  | passed f => f

/-- The code behind custom functions.  The library knows nothing about it but that a failure
that is passed on comes from one of the densities that were handed over. -/
class CustomCode (α : Type) where
  apply : CustomFunction → List (Operand α) → Except CustomFault (Tensor α)
  exists_density : forall {f : CustomFunction} {args : List (Operand α)} {failure : Failure},
    apply f args = .error (.passed failure) ->
      ∃ density x, Operand.density density ∈ args ∧ density x = .error failure

def Argument.operand {α : Type} (densities : NodeId → Argument α → Except Failure (Tensor α)) :
    Argument α → Operand α
  | tensor t => .tensor t
  | density id => .density (densities id)
  | extra x => .extra x

namespace CustomFunction

variable {α : Type} [CustomCode α]

def apply (f : CustomFunction) (densities : NodeId → Argument α → Except Failure (Tensor α))
    (args : List (Argument α)) : Except Failure (Tensor α) :=
  match CustomCode.apply f (args.map (Argument.operand densities)) with
  | .ok t => .ok t
  | .error fault => .error fault.toFailure

end CustomFunction

namespace Operation

variable {α : Type} [Scalar α] [CustomCode α]

def apply (o : Operation) (densities : NodeId → Argument α → Except Failure (Tensor α))
    (args : List (Argument α)) : Except Failure (Tensor α) :=
  match o with
  | named o => Refusal.lift (o.apply args)
  | custom f => f.apply densities args

end Operation
end DensityGraph
