import DensityGraph.Proofs.Graph.Atomic
import DensityGraph.Proofs.Graph.Function
import DensityGraph.Proofs.Operation.Words
/-!
# Functions that undo each other

The exponential of a node remembers the node as its logarithm, and the other way round.
When both functions are applied in any order, the nodes that lead from the first node to the
last one are those of the reduced word: a function that undoes the one before it gives back
the node that this one was applied to.
-/

namespace DensityGraph

theorem Dim.agree_single (size : Nat) : Dim.agree [size] = true := by
  unfold Dim.agree
  by_cases hone : size = 1
  · simp [hone]
  · simp [hone]

theorem Dim.broadcast_single (operation : String) (d : Shape) :
    Dim.broadcast operation [d] = .ok d := by
  have hagree : forall k, Dim.agree (Dim.axis [d] k) = true :=
    fun k => Dim.agree_single (d.getD k 1)
  have hmax : (List.range d.length).map (fun k => (Dim.axis [d] k).foldl max 0) = d := by
    apply List.ext_getElem
    · simp
    · intro k hk hk'
      simp [Dim.axis, hk']
  rw [Dim.broadcast]
  simp only [List.any_nil, Bool.false_eq_true, if_false, hagree, Bool.not_true]
  rw [List.find?_eq_none.mpr (fun _ _ => Bool.false_ne_true)]
  exact congrArg Except.ok hmax

/-- The node is a function of the node `y`, its only parent, and remembers it as the result of
the inverse function. -/
structure Node.Remembers (n : Node) (l : Letter) (y : NodeId) (dim : Shape) : Prop where
  dim : n.dim = dim
  role : n.role = .operation (.named l.operation) [y] []
  parents : n.parents = [y]
  representations : n.representations = [(l.inverse.operation.name, y)]

theorem Node.Remembers.representation? {n : Node} {l : Letter} {y : NodeId} {dim : Shape}
    (h : n.Remembers l y dim) (m : Letter) :
    n.representation? m.operation.name = if m = l.inverse then some y else none := by
  unfold Node.representation?
  rw [h.representations]
  cases l <;> cases m <;> rfl

namespace Workspace

variable {u v w : Workspace} {x y z : NodeId} {n : Node} {l : Letter} {dim : Shape}
  {path rest : List (Letter × NodeId)}

/-- Every node is there still and has got more children at most. -/
def KeepsNodes (w v : Workspace) : Prop :=
  forall id n, w.node? id = some n ->
    ∃ n', v.node? id = some n' ∧ n' = { n with children := n'.children }

theorem KeepsNodes.refl (w : Workspace) : w.KeepsNodes w :=
  fun _ n hn => ⟨n, hn, rfl⟩

theorem KeepsNodes.trans (h : u.KeepsNodes v) (h' : v.KeepsNodes w) : u.KeepsNodes w := by
  intro id n hn
  rcases h id n hn with ⟨n', hn', heq⟩
  rcases h' id n' hn' with ⟨n'', hn'', heq'⟩
  refine ⟨n'', hn'', ?_⟩
  rw [heq', heq]

/-- One node has been added, a function of the node `y`, which has got it as a child. -/
structure Appends (w v : Workspace) (l : Letter) (y : NodeId) (dim : Shape) : Prop where
  length : v.nodes.length = w.nodes.length + 1
  node : ∃ n, v.node? w.nodes.length = some n ∧ n.Remembers l y dim
  argument : v.node? y = (w.node? y).map fun n => n.addChild w.nodes.length
  others : forall id, id ≠ y -> id ≠ w.nodes.length -> v.node? id = w.node? id

theorem appends_compute (hn : w.node? x = some n) (l : Letter) (dim : Shape) (nv : NodeValue) :
    w.Appends (w.reserve.edit (.compute false w.nodes.length
      { Node.lone dim nv (.operation (.named l.operation) [x] []) with
        representations := [(l.inverse.operation.name, x)] } [x])) l x dim := by
  have hne : x ≠ w.nodes.length := by
    rintro rfl
    rw [node?_length] at hn
    cases hn
  have hlt : w.nodes.length < w.reserve.nodes.length := by
    simp [reserve]
  have hput : forall m id, id ≠ w.nodes.length ->
      (w.reserve.put w.nodes.length m).node? id = w.node? id := by
    intro m id hid
    rw [node?_put_of_ne _ m (Ne.symm hid), node?_reserve]
  constructor
  · rw [edit, length_linkAll]
    simp [put, reserve]
  · rw [edit, linkAll, List.foldl_cons, List.foldl_nil, node?_link, node?_put_self _ _ hlt,
      Option.map_some]
    simp only [if_true, if_neg (Ne.symm hne)]
    exact ⟨_, rfl, rfl, rfl, rfl, rfl⟩
  · rw [edit, linkAll, List.foldl_cons, List.foldl_nil, node?_link, hput _ x hne]
    simp only [if_neg hne, if_true]
  · intro id hid hid'
    rw [edit, linkAll, List.foldl_cons, List.foldl_nil, node?_link, hput _ id hid']
    simp [hid, hid']

theorem Appends.keepsNodes (h : w.Appends v l y dim) : w.KeepsNodes v := by
  intro id n hn
  have hne : id ≠ w.nodes.length := by
    rintro rfl
    rw [node?_length] at hn
    cases hn
  by_cases hid : id = y
  · rw [hid] at hn ⊢
    rw [h.argument, hn]
    exact ⟨_, rfl, Node.addChild_eq _ _⟩
  · rw [h.others id hid hne]
    exact ⟨n, hn, rfl⟩

/-!
# Paths
-/

/-- Where a path from the node `x` leads. -/
def destination (x : NodeId) (path : List (Letter × NodeId)) : NodeId :=
  (path.head?.map Prod.snd).getD x

/-- Functions that lead from the node `x` to others, each with its node and the last one
first. -/
inductive Path (w : Workspace) (x : NodeId) (dim : Shape) : List (Letter × NodeId) → Prop where
  | start {n : Node} (hn : w.node? x = some n) (hdim : n.dim = dim)
      (hnone : n.representations = []) : Path w x dim []
  | step {path : List (Letter × NodeId)} {l : Letter} {z : NodeId} {n : Node}
      (hpath : Path w x dim path) (hn : w.node? z = some n)
      (hremembers : n.Remembers l (destination x path) dim) : Path w x dim ((l, z) :: path)

theorem Path.carry (h : w.Path x dim path) (hkeeps : w.KeepsNodes v) : v.Path x dim path := by
  induction h with
  | start hn hdim hnone =>
      rcases hkeeps _ _ hn with ⟨n', hn', heq⟩
      rw [heq] at hn'
      exact .start hn' hdim hnone
  | step _ hn hremembers ih =>
      rcases hkeeps _ _ hn with ⟨n', hn', heq⟩
      rw [heq] at hn'
      exact .step ih hn' ⟨hremembers.dim, hremembers.role, hremembers.parents,
        hremembers.representations⟩

theorem Path.exists_node (h : w.Path x dim path) :
    ∃ n, w.node? (destination x path) = some n ∧ n.dim = dim ∧
      forall l : Letter, n.representation? l.operation.name =
        if path.head?.map Prod.fst = some l.inverse then some (destination x path.tail)
        else none := by
  cases h with
  | @start n hn hdim hnone =>
      refine ⟨n, hn, hdim, ?_⟩
      intro l
      unfold Node.representation?
      rw [hnone]
      rfl
  | @step path m z n _ hn hremembers =>
      refine ⟨n, hn, hremembers.dim, ?_⟩
      intro l
      rw [hremembers.representation?]
      cases l <;> cases m <;> rfl

theorem Path.exists_remembers (h : w.Path x dim path)
    (hlast : path.head?.map Prod.fst = some l) :
    ∃ n, w.node? (destination x path) = some n ∧ n.Remembers l (destination x path.tail) dim := by
  cases h with
  | start _ _ _ => cases hlast
  | @step path m z n _ hn hremembers =>
      cases hlast
      exact ⟨n, hn, hremembers⟩

end Workspace

/-!
# One function
-/

/-- Applies the function to a node. -/
def Letter.apply (l : Letter) (x : NodeId) : Action NodeId :=
  match l with
  | .exp => Action.exp (.node x)
  | .log => Action.log (.node x)

namespace Action

open Workspace

variable {u v w : Workspace} {x y : NodeId} {n : Node} {l : Letter}

theorem apply_eq (l : Letter) (x : NodeId) :
    l.apply x = invertible l.operation l.inverse.operation (.node x) := by
  cases l <;> rfl

theorem ends_newOperation_single (hn : w.node? x = some n) (o : NamedOperation)
    (reps : List (String × NodeId)) {Q : NodeId → Workspace → Prop}
    {E : Failure → Workspace → Prop} :
    Ends (newOperation (.text o.name) [.node x] .none (.tuple []) .none reps) w Q E ↔
      Q w.nodes.length (w.reserve.edit (.compute false w.nodes.length
        { Node.lone n.dim (NodeValue.blank n.dim) (.operation (.named o) [x] []) with
          representations := reps } [x])) := by
  unfold newOperation
  rw [ends_bind, ends_get, Operation.resolve_name, ends_bind]
  refine ends_pure.trans ?_
  simp only [List.mapM_cons, List.mapM_nil, toNode, pure_bind]
  unfold operationDim dims
  simp only [List.mapM_cons, List.mapM_nil, bind_assoc, pure_bind]
  rw [ends_bind, ends_node_of_some hn]
  simp only [Dim.broadcast_single, pure_bind]
  rw [ends_bind, ends_reserve]
  unfold members
  rw [ends_bind]
  refine ends_pure.trans ?_
  rw [ends_bind, ends_put, ends_bind]
  exact Iff.rfl

theorem run_apply_known (hn : w.node? x = some n)
    (hknown : n.representation? l.operation.name = some y) :
    (l.apply x).run w = (.ok y, w) := by
  rw [apply_eq]
  apply run_of_ends
  unfold invertible toNode
  rw [pure_bind, ends_bind, ends_node_of_some hn, hknown]
  exact ends_pure.mpr ⟨rfl, rfl⟩

theorem ends_apply_unknown (hn : w.node? x = some n)
    (hunknown : n.representation? l.operation.name = none) {Q : NodeId → Workspace → Prop}
    {E : Failure → Workspace → Prop} :
    Ends (l.apply x) w Q E ↔
      Q w.nodes.length (w.reserve.edit (.compute false w.nodes.length
        { Node.lone n.dim (NodeValue.blank n.dim) (.operation (.named l.operation) [x] []) with
          representations := [(l.inverse.operation.name, x)] } [x])) := by
  rw [apply_eq]
  unfold invertible toNode
  rw [pure_bind, ends_bind, ends_node_of_some hn, hunknown]
  exact ends_newOperation_single hn _ _

theorem run_apply_unknown (hn : w.node? x = some n)
    (hunknown : n.representation? l.operation.name = none) :
    ∃ v, (l.apply x).run w = (.ok w.nodes.length, v) ∧ w.Appends v l x n.dim := by
  refine ⟨_, run_of_ends ?_, appends_compute hn l n.dim (NodeValue.blank n.dim)⟩
  rw [ends_apply_unknown hn hunknown]
  exact ⟨rfl, rfl⟩

end Action

/-!
# Words of functions
-/

/-- Applies functions to a node, one after another. -/
def Word.apply (word : Word) (x : NodeId) : Action NodeId :=
  word.foldlM (fun y l => l.apply y) x

namespace Workspace

variable {v w : Workspace} {x y : NodeId} {n : Node} {l : Letter} {word : Word} {dim : Shape}
  {path : List (Letter × NodeId)}

theorem run_apply_concat (h : (word.apply x).run w = (.ok y, v)) (l : Letter) :
    (Word.apply (word ++ [l]) x).run w = (l.apply y).run v := by
  have happend : Word.apply (word ++ [l]) x = word.apply x >>= l.apply := by
    unfold Word.apply
    rw [List.foldlM_append]
    simp only [List.foldlM_cons, List.foldlM_nil, bind_pure]
  rw [happend, Action.run_bind_of_run h]

/-- The word has led from the node `x` along a path to its last node.  The functions of the
path are those that are left of the word, and its nodes are those to which earlier parts of
the word have led. -/
structure Reaches (w : Workspace) (x : NodeId) (dim : Shape) (word : Word)
    (path : List (Letter × NodeId)) (v : Workspace) : Prop where
  run : (word.apply x).run w = (.ok (destination x path), v)
  letters : path.map Prod.fst = word.history
  isPath : v.Path x dim path
  visited : forall rest, rest <:+ path -> ∃ earlier u, earlier <+: word ∧
    Word.history earlier = rest.map Prod.fst ∧
    (Word.apply earlier x).run w = (.ok (destination x rest), u)
  keeps : w.KeepsNodes v

theorem reaches_nil (hn : w.node? x = some n) (hnone : n.representations = []) :
    w.Reaches x n.dim [] [] w := by
  constructor
  · rfl
  · rfl
  · exact .start hn rfl hnone
  · intro rest hrest
    rw [List.suffix_nil.mp hrest]
    exact ⟨[], w, List.prefix_refl [], rfl, rfl⟩
  · exact KeepsNodes.refl w

theorem Reaches.head? (h : w.Reaches x dim word path v) :
    path.head?.map Prod.fst = word.history.head? := by
  rw [← h.letters, List.head?_map]

theorem Reaches.undo (h : w.Reaches x dim word path v)
    (hlast : word.history.head? = some l.inverse) :
    (l.apply (destination x path)).run v = (.ok (destination x path.tail), v) ∧
      w.Reaches x dim (word ++ [l]) path.tail v := by
  rcases h.isPath.exists_node with ⟨n, hn, _, hknown⟩
  have hrun : (l.apply (destination x path)).run v = (.ok (destination x path.tail), v) := by
    apply Action.run_apply_known hn
    rw [hknown, h.head?, if_pos hlast]
  refine ⟨hrun, (run_apply_concat h.run l).trans hrun, ?_, ?_, ?_, h.keeps⟩
  · rw [Word.history_concat, Word.push_of_head? hlast, ← h.letters, List.map_tail]
  · cases h.isPath with
    | @start m hm hdim hnone => exact .start hm hdim hnone
    | step hpath _ _ => exact hpath
  · intro rest hrest
    rcases h.visited rest (hrest.trans (List.tail_suffix path)) with ⟨earlier, u, hprefix, hu⟩
    exact ⟨earlier, u, hprefix.trans (List.prefix_append word [l]), hu⟩

theorem Reaches.extend (h : w.Reaches x dim word path v)
    (hlast : word.history.head? ≠ some l.inverse) :
    ∃ v', (l.apply (destination x path)).run v = (.ok v.nodes.length, v') ∧
      v.Appends v' l (destination x path) dim ∧
      w.Reaches x dim (word ++ [l]) ((l, v.nodes.length) :: path) v' := by
  rcases h.isPath.exists_node with ⟨n, hn, hdim, hknown⟩
  have hunknown : n.representation? l.operation.name = none := by
    rw [hknown, h.head?, if_neg hlast]
  rcases Action.run_apply_unknown hn hunknown with ⟨v', hrun, happends⟩
  rw [hdim] at happends
  have hconcat := (run_apply_concat h.run l).trans hrun
  have hletters : ((l, v.nodes.length) :: path).map Prod.fst = Word.history (word ++ [l]) := by
    rw [Word.history_concat, Word.push_of_head?_ne hlast, ← h.letters, List.map_cons]
  rcases happends.node with ⟨m, hm, hremembers⟩
  refine ⟨v', hrun, happends, hconcat, hletters, ?_, ?_, h.keeps.trans happends.keepsNodes⟩
  · exact .step (h.isPath.carry happends.keepsNodes) hm hremembers
  · intro rest hrest
    rcases List.suffix_cons_iff.mp hrest with rfl | hold
    · exact ⟨word ++ [l], v', List.prefix_refl _, hletters.symm, hconcat⟩
    · rcases h.visited rest hold with ⟨earlier, u, hprefix, hu⟩
      exact ⟨earlier, u, hprefix.trans (List.prefix_append word [l]), hu⟩

theorem exists_reaches (hn : w.node? x = some n) (hnone : n.representations = []) (word : Word) :
    ∃ path v, w.Reaches x n.dim word path v := by
  induction word using List.reverseRecOn with
  | nil => exact ⟨[], w, reaches_nil hn hnone⟩
  | append_singleton word l ih =>
      rcases ih with ⟨path, v, h⟩
      by_cases hlast : (Word.history word).head? = some l.inverse
      · exact ⟨path.tail, v, (h.undo hlast).2⟩
      · rcases h.extend hlast with ⟨v', _, _, hnext⟩
        exact ⟨_, v', hnext⟩

end Workspace
end DensityGraph
