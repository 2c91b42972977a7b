import DensityGraph.Graph.Workspace
/-!
# Connected components

The nodes of a compiled graph are all those connected to its starting points through
parents and children.  They are listed by ascending number.
-/

namespace DensityGraph
namespace Workspace

def parents (w : Workspace) (id : NodeId) : List NodeId :=
  match w.node? id with
  | some n => n.parents
  | none => []

def children (w : Workspace) (id : NodeId) : List NodeId :=
  match w.node? id with
  | some n => n.children
  | none => []

def neighbours (w : Workspace) (id : NodeId) : List NodeId :=
  w.parents id ++ w.children id

def unvisited (w : Workspace) (seen : List NodeId) : List NodeId :=
  (List.range w.nodes.length).filter (· ∉ seen)

theorem node?_eq_none_of_length_le {w : Workspace} {id : NodeId} (h : w.nodes.length ≤ id) :
    w.node? id = none := by
  simp [node?, List.getElem?_eq_none h]

theorem length_unvisited_lt {w : Workspace} {seen : List NodeId} {id : NodeId}
    (hid : id < w.nodes.length) (hseen : id ∉ seen) :
    (w.unvisited (id :: seen)).length < (w.unvisited seen).length := by
  have hmem : id ∈ w.unvisited seen := by simp [unvisited, hid, hseen]
  have heq : w.unvisited (id :: seen) = (w.unvisited seen).filter (· ≠ id) := by
    simp only [unvisited, List.filter_filter]
    apply List.filter_congr
    intro x _
    simp [List.mem_cons, not_or]
  rw [heq]
  have hle := List.length_filter_le (fun x => decide (x ≠ id)) (w.unvisited seen)
  rcases Nat.lt_or_eq_of_le hle with hlt | hsame
  · exact hlt
  · have hall := List.length_filter_eq_length_iff.1 hsame id hmem
    simp at hall

def visit (w : Workspace) (seen : List NodeId) : List NodeId → List NodeId
  | [] => seen
  | id :: rest =>
      if _h : id ∈ seen ∨ w.nodes.length ≤ id then visit w seen rest
      else visit w (id :: seen) (w.neighbours id ++ rest)
termination_by work => ((w.unvisited seen).length, work.length)
decreasing_by
  · exact Prod.Lex.right _ (by simp)
  · rw [not_or] at _h
    exact Prod.Lex.left _ _ (length_unvisited_lt (Nat.lt_of_not_le _h.2) _h.1)

def component (w : Workspace) (starts : List NodeId) : List NodeId :=
  let seen := w.visit [] starts
  (List.range w.nodes.length).filter (· ∈ seen)

end Workspace
end DensityGraph
