import DensityGraph.Graph.Build
/-!
# Functions of nodes

Exponentials and logarithms remember what they were taken of, so that one undoes the
other.  The shapes of matrix products, transposes and sums are known beforehand.
-/

namespace DensityGraph

def NamedOperation.isPlain : NamedOperation → Bool
  | .sqrt | .abs | .square | .sigmoid | .softplus | .tanh => true
  | _ => false

inductive BinaryOperator where
  | add
  | subtract
  | multiply
  | divide
  | power
  | matmul
deriving Repr, DecidableEq, Inhabited

namespace BinaryOperator

def operation : BinaryOperator → NamedOperation
  | add => .add
  | subtract => .subtract
  | multiply => .multiply
  | divide => .divide
  | power => .power
  | matmul => .matmul

def symbol : BinaryOperator → String
  | add => "+"
  | subtract => "-"
  | multiply => "*"
  | divide => "/"
  | power => "**"
  | matmul => "@"

def ofSymbol? (s : String) : Option BinaryOperator :=
  [add, subtract, multiply, divide, power, matmul].find? fun o => o.symbol == s

end BinaryOperator

namespace Action

/-- A function with an inverse: where `x` is known to be an inverse image, that is
the result, and else a new node that remembers `x`. -/
def invertible (o inverse : NamedOperation) (x : Value) : Action NodeId := do
  let id ← toNode x
  match (← node id).representation? o.name with
  | some known => return known
  | none => newOperation (.text o.name) [.node id] .none (.tuple []) .none [(inverse.name, id)]

def exp (x : Value) : Action NodeId :=
  invertible .exp .log x

def log (x : Value) : Action NodeId :=
  invertible .log .exp x

def matmul (x y : Value) : Action NodeId := do
  let x ← toNode x
  let y ← toNode y
  let left := (← node x).dim
  let right := (← node y).dim
  match left, right with
  | [m, k], [l, n] =>
      if k = l then operationOf .matmul [x, y] (.ofShape [m, n])
      else invalid (.productShapes left right)
  | _, _ => invalid (.productShapes left right)

def transpose (x : Value) : Action NodeId := do
  let x ← toNode x
  let dim := (← node x).dim
  if dim.length < 2 then refuse .value
  operationOf .transpose [x] (.ofShape (Tensor.swapLast dim))

def reduce (o : NamedOperation) (x : Value) : Action NodeId := do
  let x ← toNode x
  operationOf o [x] (.ofShape ((← node x).dim.map fun _ => 1))

def function (name : String) (args : List Value) : Action NodeId := do
  match name, args with
  | "exp", [x] => exp x
  | "log", [x] => log x
  | "matmul", [x, y] => matmul x y
  | "transpose", [x] => transpose x
  | "sum", [x] => reduce .sum x
  | "mean", [x] => reduce .mean x
  | "ilogit", [x] => newOperation (.text "sigmoid") [x] .none (.tuple []) .none []
  | name, args =>
      match (NamedOperation.ofName? name).filter NamedOperation.isPlain, args with
      | some _, [x] => newOperation (.text name) [x] .none (.tuple []) .none []
      | some _, _ => refuse .type
      | none, _ =>
          if ["exp", "log", "matmul", "transpose", "sum", "mean", "ilogit"].contains name then
            refuse .type
          else refuse .attribute

def isNode : Value → Bool
  | .node _ => true
  | _ => false

/-- An operator between two values, at least one of which is a node; a power needs a
node as its base. -/
def binary (o : BinaryOperator) (a b : Value) : Action NodeId := do
  unless isNode a || (isNode b && o ≠ .power) do refuse .type
  match o with
  | .matmul => matmul a b
  | o => newOperation (.text o.operation.name) [a, b] .none (.tuple []) .none []

def negate (a : Value) : Action NodeId := do
  unless isNode a do refuse .type
  newOperation (.text NamedOperation.negative.name) [a] .none (.tuple []) .none []

end Action
end DensityGraph
