import DensityGraph.Graph.Node
import DensityGraph.Settings
import DensityGraph.Journal.Message
/-!
# Workspaces

A workspace holds all nodes by number, the settings, and the messages so far.
Numbers are given out in order and never twice; a number stays empty when the node
that it was given to could not be built.  An action may change the workspace, also
when it fails.
-/

namespace DensityGraph

structure Workspace where
  nodes : List (Option Node)
  settings : Settings
  wide : Bool
  messages : List Message
  modes : List Value
deriving Inhabited

namespace Workspace

def empty (settings : Settings) (wide : Bool) : Workspace :=
  ⟨[], settings, wide, [], []⟩

def node? (w : Workspace) (id : NodeId) : Option Node :=
  w.nodes[id]?.join

def reserve (w : Workspace) : Workspace :=
  { w with nodes := w.nodes ++ [none] }

def put (w : Workspace) (id : NodeId) (n : Node) : Workspace :=
  { w with nodes := w.nodes.set id (some n) }

def update (w : Workspace) (id : NodeId) (f : Node → Node) : Workspace :=
  { w with nodes := w.nodes.modify id (Option.map f) }

def report (w : Workspace) (m : Message) : Workspace :=
  { w with messages := w.messages ++ [m] }

def label (w : Workspace) (id : NodeId) : Label :=
  match w.node? id with
  | some n => n.label id
  | none => .data id []

def written (w : Workspace) (id : NodeId) : String :=
  (w.label id).text

/-- Whether the text of a value can be made. -/
def canWrite (w : Workspace) (v : Value) : Bool :=
  v.isWritable fun id => (w.label id).isWritable

def kindOf (w : Workspace) (id : NodeId) : String :=
  (w.label id).title

theorem node?_reserve (w : Workspace) (id : NodeId) : w.reserve.node? id = w.node? id := by
  simp only [node?, reserve, List.getElem?_append]
  split
  · rfl
  · rename_i h
    rw [List.getElem?_eq_none (Nat.le_of_not_lt h)]
    cases id - w.nodes.length <;> rfl

theorem node?_put_self (w : Workspace) {id : NodeId} (n : Node) (h : id < w.nodes.length) :
    (w.put id n).node? id = some n := by
  simp [node?, put, h]

theorem node?_put_of_ne (w : Workspace) {id other : NodeId} (n : Node) (h : id ≠ other) :
    (w.put id n).node? other = w.node? other := by
  simp [node?, put, List.getElem?_set_ne h]

theorem node?_update_self (w : Workspace) (id : NodeId) (f : Node → Node) :
    (w.update id f).node? id = (w.node? id).map f := by
  cases h : w.nodes[id]? with
  | none => simp [node?, update, h]
  | some o => cases o <;> simp [node?, update, h]

theorem node?_update_of_ne (w : Workspace) {id other : NodeId} (f : Node → Node)
    (h : id ≠ other) : (w.update id f).node? other = w.node? other := by
  simp [node?, update, h]

end Workspace

abbrev Action := ExceptT Failure (StateM Workspace)

namespace Action

def refuse {α : Type} (r : Refusal) : Action α :=
  throw (.refused r)

def invalid {α : Type} (reason : Invalid) : Action α :=
  throw (.invalid reason)

def ofExcept {α : Type} : Except Failure α → Action α
  | .ok x => pure x
  | .error f => throw f

def ofRefusal {α : Type} : Except Refusal α → Action α
  | .ok x => pure x
  | .error r => refuse r

def node (id : NodeId) : Action Node := do
  match (← get).node? id with
  | some n => return n
  | none => refuse .attribute

def nodeId : Value → Action NodeId
  | .node id => pure id
  | _ => refuse .attribute

def label (id : NodeId) : Action Label :=
  return (← get).label id

def written (v : Value) : Action String :=
  return v.written (← get).written

def requireText (isWritable : Bool) : Action Unit :=
  unless isWritable do refuse .value

def reserve : Action NodeId := do
  let id := (← get).nodes.length
  modify Workspace.reserve
  return id

def put (id : NodeId) (n : Node) : Action Unit :=
  modify fun w => w.put id n

def update (id : NodeId) (f : Node → Node) : Action Unit :=
  modify fun w => w.update id f

def report (c : Channel) (level : Level) (text : String) : Action Unit :=
  modify fun w => w.report (c.message level text)

def run {α : Type} (a : Action α) (w : Workspace) : Except Failure α × Workspace :=
  StateT.run (ExceptT.run a) w

end Action
end DensityGraph
