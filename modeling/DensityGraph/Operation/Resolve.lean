import DensityGraph.Failure
/-!
# Resolution of operations

An operation is given by its name in the operation table, or as a function.
-/

namespace DensityGraph

mutual

/-- Whether a value can be looked up in a table: lists and arrays can change and
cannot be. -/
def Value.isKey : Value → Bool
  | .list _ => false
  | .array _ _ => false
  | .tuple xs => Value.areKeys xs
  | .foreign f => f.isHashable
  | _ => true

def Value.areKeys : List Value → Bool
  | [] => true
  | x :: xs => x.isKey && Value.areKeys xs

end

def Operation.resolve (label : NodeId → String) (v : Value) : Except Failure Operation :=
  match v with
  | .function f => .ok (.custom f)
  | .text s =>
      match NamedOperation.ofName? s with
      | some o => .ok (.named o)
      | none => .error (.invalid (.unknownOperation (v.written label)))
  | v =>
      if v.isKey then .error (.invalid (.unknownOperation (v.written label)))
      else .error (.refused .type)

def Constraint.resolve (label : NodeId → String) (v : Value) : Except Failure Constraint :=
  match v with
  | .text s =>
      match Constraint.ofTag? s with
      | some c => .ok c
      | none => .error (.invalid (.unknownConstraint (v.written label)))
  | v =>
      if v.isKey then .error (.invalid (.unknownConstraint (v.written label)))
      else .error (.refused .type)

end DensityGraph
