import DensityGraph.Value.Basic
/-!
# Names of operations

Operation nodes apply either an entry of the operation table or a custom function.
-/

namespace DensityGraph

inductive NamedOperation where
  | add
  | subtract
  | multiply
  | divide
  | power
  | negative
  | exp
  | log
  | sqrt
  | abs
  | square
  | sigmoid
  | softplus
  | tanh
  | matmul
  | transpose
  | sum
  | mean
  | reshape
deriving Repr, DecidableEq, Inhabited

namespace NamedOperation

def all : List NamedOperation :=
  [add, subtract, multiply, divide, power, negative, exp, log, sqrt, abs, square, sigmoid,
    softplus, tanh, matmul, transpose, sum, mean, reshape]

def name : NamedOperation → String
  | add => "add"
  | subtract => "subtract"
  | multiply => "multiply"
  | divide => "divide"
  | power => "power"
  | negative => "negative"
  | exp => "exp"
  | log => "log"
  | sqrt => "sqrt"
  | abs => "abs"
  | square => "square"
  | sigmoid => "sigmoid"
  | softplus => "softplus"
  | tanh => "tanh"
  | matmul => "matmul"
  | transpose => "transpose"
  | sum => "sum"
  | mean => "mean"
  | reshape => "reshape"

def ofName? (s : String) : Option NamedOperation :=
  all.find? fun o => o.name == s

end NamedOperation

inductive Operation where
  | named (o : NamedOperation)
  | custom (f : CustomFunction)
deriving Repr, DecidableEq, Inhabited

def Operation.name : Operation → String
  | named o => o.name
  | custom f => f.name

end DensityGraph
