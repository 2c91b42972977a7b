import DensityGraph.Graph.Build
import DensityGraph.Evaluation.LogDensity
import DensityGraph.Random.Threefry
/-!
# Free states

A free state to start from holds the free vectors of initial values, zeros, or random
numbers.  Free states are flattened by ascending number of their variables.
-/

namespace DensityGraph

def Settings.chains (s : Settings) : Value → Value
  | .none => s.defaultChains
  | v => v

namespace Action

def chainCount (count : Value) : Action Value := do
  let w ← get
  let count := w.settings.chains count
  if ← ofRefusal (Settings.lessThanOne count) then
    invalid (.chainCount (count.display w.written))
  return count

def chainSize : Value → Except Refusal Nat
  | .int n => .ok n.toNat
  | .bool b => .ok (if b then 1 else 0)
  | .array _ (.integers _ t) =>
      match t.shape, t.toList with
      | [], [n] => .ok n.toNat
      | _, _ => .error .type
  | _ => .error .type

def isSingle : Value → Bool
  | .bool b => b
  | .int n => n == 1
  | .float x => x == 1.0
  | .array _ (.integers _ t) =>
      match t.toList with
      | [n] => n == 1
      | _ => false
  | .array _ a =>
      match a.toFloats.toList with
      | [x] => x == 1.0
      | _ => false
  | _ => false

/-- A number of chains as a number of copies; a single copy may be asked for by any number. -/
def copyCount (count : Value) : Except Refusal Nat :=
  if isSingle count then .ok 1 else chainSize count

def initialValues (d : Dag) (inits : List (NodeId × Value)) :
    Action (List (NodeId × List Number × NodeValue)) := do
  let w ← get
  for (id, _) in inits do
    unless (d.latents w).contains id do invalid (.notVariableOfGraph (w.label id))
  inits.mapM fun (id, v) => do
    let free ← toFree id v
    let t ← ofRefusal v.toFloats
    return (id, free, NodeValue.ofFloats (t.broadcast (← node id).dim))

def seedNumber : Value → Except Refusal Int
  | .bool b => .ok (if b then 1 else 0)
  | .int n =>
      if -Value.wordLimit ≤ n && n < Value.wordLimit then .ok n else .error .overflow
  | .array _ (.integers _ t) =>
      match t.shape, t.toList with
      | [], [n] => .ok n
      | _, _ => .error .type
  | _ => .error .type

def keysOf (seed : Value) (count : Nat) : Action (List (Option Threefry.Key)) := do
  match seed with
  | .none => return List.replicate count none
  | v =>
      let key := Threefry.Key.ofSeed (← get).wide (← ofRefusal (seedNumber v))
      return (Threefry.split key count).map some

def tile (chains : Nat) (free : List Number) : Tensor Float :=
  let entries := (free.map Number.value).toArray
  Tensor.ofFn [chains, free.length] fun index => entries.getD (index.getLastD 0) 0.0

def randomFree (p : Precision) (key : Threefry.Key) (chains size : Nat) : Tensor Float :=
  let entries := (Threefry.uniform (p = .double) key (chains * size)).toArray
  let shape : Shape := [chains, size]
  Tensor.ofFn shape fun index => entries.getD (shape.offset index) 0.0

def freeRows (p : Precision) (count : Value) (size : Nat) :
    Option (List Number) → Option Threefry.Key → Except Refusal (Tensor Float)
  | some free, _ => (copyCount count).map fun chains => (tile chains free).map p.round
  | none, none => (chainSize count).map fun chains => Tensor.full [chains, size] 0.0
  | none, some key =>
      (chainSize count).map fun chains => (randomFree p key chains size).map p.round

/-- A free state to start from.  All initial values are checked before the first
variable takes one. -/
def initialFreeState (d : Dag) (count : Value) (inits : List (NodeId × Value))
    (seed : Value) : Action FreeState := do
  let count ← chainCount count
  let initial ← initialValues d inits
  initial.forM fun (id, _, value) => assignValue id value
  let w ← get
  let latents := d.latents w
  let keys ← keysOf seed latents.length
  let p ← ofRefusal (w.settings.tensorPrecision w.wide)
  let state ← (latents.zip keys).mapM fun (id, key) => do
    let size := (← node id).freeSize
    let t ← ofRefusal (freeRows p count size ((initial.lookup id).map Prod.fst) key)
    return ((id : Int), NumericArray.floats p t)
  report .dag .debug
    ("Initialized the free state of " ++ toString latents.length ++ " variables")
  return state

end Action

/-!
# Flat free states

The free tensors are put next to each other by ascending key, and cut apart again by the free
sizes of the variables.
-/

def sortState {β : Type} (free : List (Int × β)) : List (Int × β) :=
  free.mergeSort fun a b => a.1 ≤ b.1

def flattenState (free : List (Int × Tensor Number)) : Tensor Number :=
  Tensor.vector ((sortState free).flatMap fun p => p.2.toList)

namespace Action

def totalSize (d : Dag) : Action Nat := do
  let sizes ← (d.latents (← get)).mapM fun id => return (← node id).freeSize
  return sizes.foldl (· + ·) 0

def cut (chains : Nat) : List (NodeId × Nat) → List Number →
    List (Int × Tensor Number)
  | [], _ => []
  | (id, size) :: rest, xs =>
      let entries := (xs.take (chains * size)).toArray
      let shape : Shape := [chains, size]
      ((id : Int), Tensor.ofFn shape fun index => entries.getD (shape.offset index) default) ::
        cut chains rest (xs.drop (chains * size))

def unflatten (d : Dag) (flat : Value) : Action (List (Int × Tensor Number)) := do
  let w ← get
  let t : Tensor Number ← ofRefusal (w.tensorOf flat)
  let total ← totalSize d
  let count := t.shape.size
  if t.rank ≠ 1 || total = 0 || count % total ≠ 0 then invalid (.flatLength count)
  let latents := (d.latents w).mergeSort (· ≤ ·)
  let sized ← latents.mapM fun id => return (id, (← node id).freeSize)
  return cut (count / total) sized t.toList

end Action
end DensityGraph
