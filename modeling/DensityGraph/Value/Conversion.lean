import DensityGraph.Settings
import DensityGraph.Value.Coerce
/-!
# Values as data, shapes and tensors

The shape of a node has at least two axes: a single number `n` stands for a column
of `n` entries.  Data become arrays of that kind, and tensors are arrays kept in the
precision of the settings.
-/

namespace DensityGraph

namespace Tensor

def atLeastMatrix (t : Tensor Float) : Tensor Float :=
  match t.shape with
  | [] => t.broadcast [1, 1]
  | [n] => ofFn [n, 1] fun index => t.get [index.headD 0]
  | _ => t

theorem two_le_rank_atLeastMatrix (t : Tensor Float) : 2 ≤ t.atLeastMatrix.shape.length := by
  unfold atLeastMatrix
  split
  · simp [broadcast]
  · simp
  · rename_i h₁ h₂
    match h : t.shape, h₁, h₂ with
    | [], h₁, _ => exact absurd rfl h₁
    | [n], _, h₂ => exact absurd rfl (h₂ n)
    | _ :: _ :: _, _, _ => simp

end Tensor

namespace Value

def toData (kindOf : NodeId → String) (v : Value) : Except Failure (Tensor Float) :=
  match v.toFloats with
  | .ok t => .ok t.atLeastMatrix
  | .error .overflow => .error (.refused .overflow)
  | .error _ => .error (.invalid (.notNumeric (v.typeName kindOf)))

def toSizes : Value → Except Refusal (List Int)
  | none => .ok [1, 1]
  | v => do
      match ← v.toIntegers with
      | [n] => return [n, 1]
      | sizes => return sizes

def toDim (v : Value) : Except Failure Shape := do
  let sizes ← Refusal.lift v.toSizes
  if sizes.any (· < 1) then throw (.invalid (.dimensions sizes))
  return sizes.map Int.toNat

def addBatchAxis (v : Value) : Except Refusal NumericArray := do
  match ← v.toContent with
  | .numeric a => return a.addBatchAxis
  | _ => throw .type

def matchBatches (wide : Bool) (args : List Value) : Except Failure (List Value) :=
  (Batched.reconciled (args.map (Extra.mk wide))).map fun matched => matched.map Extra.value

end Value

namespace Settings

def tensorPrecision (wide : Bool) (s : Settings) : Except Refusal Precision :=
  match s.precision? with
  | some p => .ok (p.narrow wide)
  | none => .error .type

def toTensor (wide : Bool) (s : Settings) (v : Value) : Except Refusal (Tensor Number) := do
  let p ← s.tensorPrecision wide
  return NumericArray.toNumbers p (← v.toFloats)

end Settings
end DensityGraph
