import DensityGraph.Operation.Apply
import DensityGraph.Graph.Workspace
import DensityGraph.Value.Conversion
/-!
# Environments

An environment holds what one pass over a graph has computed: tensors and, for
distributions, their densities.  Every entry is written once.
-/

namespace DensityGraph

/-- What is kept under a node and a kind; the density of a distribution is evaluated
when it is asked for. -/
inductive Entry (α : Type) where
  | tensor (t : Tensor α)
  | density (id : NodeId)
deriving Inhabited

structure Environment (α : Type) where
  entries : List ((NodeId × EntryKind) × Entry α)
  feed : List (NodeId × Value)
  dataList : List (NodeId × NumericArray)
  dataAsConstants : Value
deriving Inhabited

namespace Environment

variable {α : Type}

def start (w : Workspace) (feed : List (NodeId × Value)) : Except Failure (Environment α) := do
  w.settings.validate w.written w.wide
  return ⟨[], feed, [], w.settings.dataAsConstants⟩

def get? (e : Environment α) (id : NodeId) (kind : EntryKind) : Option (Entry α) :=
  e.entries.lookup (id, kind)

def add (e : Environment α) (id : NodeId) (kind : EntryKind) (entry : Entry α) :
    Environment α :=
  { e with entries := e.entries ++ [((id, kind), entry)] }

theorem get?_add_of_ne (e : Environment α) {id other : NodeId} {kind kind' : EntryKind}
    (entry : Entry α) (h : (other, kind') ≠ (id, kind)) :
    (e.add id kind entry).get? other kind' = e.get? other kind' := by
  have hne : ((other, kind') == (id, kind)) = false := by simpa using h
  simp [get?, add, List.lookup_append, List.lookup_cons, hne]

theorem get?_add_self (e : Environment α) {id : NodeId} {kind : EntryKind} (entry : Entry α)
    (h : e.get? id kind = none) : (e.add id kind entry).get? id kind = some entry := by
  simp only [get?] at h
  simp [get?, add, List.lookup_append, h]

def sortedEntries (e : Environment α) : List ((NodeId × EntryKind) × Entry α) :=
  e.entries.mergeSort fun a b =>
    a.1.1 < b.1.1 || (a.1.1 == b.1.1 && a.1.2.name ≤ b.1.2.name)

def sortedData (e : Environment α) : List (NodeId × NumericArray) :=
  e.dataList.mergeSort fun a b => a.1 ≤ b.1

def written (e : Environment α) : String :=
  "Environment(entries=" ++ toString e.entries.length ++ ")"

def register (e : Environment α) (id : NodeId) (a : NumericArray) : Environment α :=
  { e with dataList := (e.dataList.filter fun p => p.1 != id) ++ [(id, a)] }

end Environment

abbrev Pass (α : Type) := ExceptT Failure (StateM (Environment α))

namespace Pass

variable {α : Type}

def ofExcept {β : Type} : Except Failure β → Pass α β
  | .ok x => pure x
  | .error f => throw f

def ofRefusal {β : Type} : Except Refusal β → Pass α β
  | .ok x => pure x
  | .error r => throw (.refused r)

def assign (w : Workspace) (id : NodeId) (kind : EntryKind) (entry : Entry α) :
    Pass α Unit := do
  if ((← get).get? id kind).isSome then throw (.alreadyAssigned kind (w.label id))
  modify fun e => e.add id kind entry

def entry (w : Workspace) (id : NodeId) (kind : EntryKind) : Pass α (Entry α) := do
  match (← get).get? id kind with
  | some x => return x
  | none => throw (.notMaterialized kind.name (w.label id))

def run {β : Type} (p : Pass α β) (e : Environment α) : Except Failure β × Environment α :=
  StateT.run (ExceptT.run p) e

end Pass

def Workspace.tensorOf {α : Type} [Scalar α] (w : Workspace) (v : Value) :
    Except Refusal (Tensor α) := do
  let p ← w.settings.tensorPrecision w.wide
  return (← v.toFloats).map (Scalar.constant p)

namespace Pass

variable {α : Type} [Scalar α]

/-- The value fed for a node; apart from the batch axis it has the shape that is
expected. -/
def placeholder (w : Workspace) (id : NodeId) (expected : List Int) : Pass α (Tensor α) := do
  match (← get).feed.lookup id with
  | none => throw (.nothingFed (w.label id))
  | some v =>
      let shape := (← ofRefusal v.shape).map Int.ofNat
      if shape.tail ≠ expected.tail then
        throw (.invalid (.fedShape (w.label id) shape expected))
      ofRefusal (w.tensorOf v)

end Pass
end DensityGraph
