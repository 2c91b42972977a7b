import DensityGraph.Graph.Declare
import DensityGraph.Graph.Function
import DensityGraph.Graph.Observe
import DensityGraph.Proofs.Graph.Reads
import DensityGraph.Proofs.Value.Dim
/-!
# Edits

Whatever a call does to the graph of a workspace, it does by elementary edits: it gives
out a number, puts a new node under it, adds or removes an edge, attaches a target to a
distribution or detaches it, or names a parameter.  What is true of all graphs that can
be built is proved edit by edit.
-/

namespace DensityGraph

/-!
# New nodes

What is known of a node when it is put down: its bounds fit its constraint, its truncation
cuts something off the support, and its shape is declared for those of its arguments.
-/

structure Interval.Fits (b : Interval) (c : Constraint) : Prop where
  proper : b.isProper = true
  ordered : ¬b.upper ≤ b.lower
  constraint : c = Constraint.ofBounds b ∨ Constraint.ofBounds b = .unconstrained

/-- The families of matrices. -/
def Family.isMatrix : Family → Bool
  | lkj | wishart => true
  | _ => false

structure Interval.Truncates (t support : Interval) : Prop where
  ordered : t.lower < t.upper
  lower : ¬t.lower < support.lower
  upper : ¬support.upper < t.upper
  proper : t.sameAs support = false

structure Distribution.Ranged (d : Distribution) : Prop where
  support : d.support.lower < d.support.upper
  truncation : forall t, d.truncation = some t ->
    t.Truncates d.support ∧ d.family.hasCdf = true

inductive Node.Made : Node → Prop where
  | data (t : Tensor Float) : t.shape.IsDim -> Made (Node.lone t.shape (.ofFloats t) .data)
  | latent (dim : Shape) (v : NodeValue) (b : Interval) (c : Constraint) (size : Nat) :
      dim.IsDim -> b.Fits c ->
      (c.freeSize? (dim.map Int.ofNat)).map Int.toNat = some size -> v.array.shape = dim ->
      Made (Node.lone dim v (.latent b c size))
  | distribution (dim : Shape) (v : NodeValue) (d : Distribution) :
      dim.IsDim -> d.target = none -> d.parameters = [] ->
      (d.family.isMatrix = true -> (∃ m, dim = [m, m]) ∧ d.truncation = none) ->
      d.Ranged -> v.array.shape = dim -> Made (Node.lone dim v (.distribution d))

def Node.isSource (n : Node) : Bool :=
  n.isData || n.isLatent

theorem Node.isSource_eq_false {n : Node} (h : n.isDistribution = true) :
    n.isSource = false := by
  unfold isDistribution distribution? at h
  unfold isSource isData isLatent
  cases hrole : n.role <;> simp_all

namespace NamedOperation

def isFunction : NamedOperation → Bool
  | negative | exp | log | sqrt | abs | square | sigmoid | softplus | tanh => true
  | _ => false

def isOperator : NamedOperation → Bool
  | add | subtract | multiply | divide | power => true
  | _ => false

inductive Declares : NamedOperation → List Shape → Shape → Prop where
  | function (o : NamedOperation) (d dim : Shape) : o.isFunction = true ->
      Dim.broadcast o.name [d] = .ok dim -> Declares o [d] dim
  | operator (o : NamedOperation) (d e dim : Shape) : o.isOperator = true ->
      Dim.broadcast o.name [d, e] = .ok dim -> Declares o [d, e] dim
  | matmul (m k n : Nat) (dim : Shape) : (Value.ofShape [m, n]).toDim = .ok dim ->
      Declares .matmul [[m, k], [k, n]] dim
  | transpose (d dim : Shape) : 2 ≤ d.length ->
      (Value.ofShape (Tensor.swapLast d)).toDim = .ok dim -> Declares .transpose [d] dim
  | reduction (o : NamedOperation) (d dim : Shape) : o = .sum ∨ o = .mean ->
      (Value.ofShape (d.map fun _ => 1)).toDim = .ok dim -> Declares o [d] dim

end NamedOperation

namespace Workspace

/-- The shapes of some nodes, all of which exist. -/
def dims? (w : Workspace) (ids : List NodeId) : Option (List Shape) :=
  ids.mapM fun id => (w.node? id).map Node.dim

def Declares (w : Workspace) (dim : Shape) : Role → Prop
  | .operation (.named o) arguments extras =>
      extras = [] ∧ ∃ ds, w.dims? arguments = some ds ∧ o.Declares ds dim
  | _ => False

end Workspace

/-!
# Elementary edits
-/

inductive Edit where
  | reserve
  | report (m : Message)
  | place (id : NodeId) (n : Node)
  | compute (isDeclared : Bool) (id : NodeId) (n : Node) (arguments : List NodeId)
  | link (child parent : NodeId)
  | unlink (child parent : NodeId)
  | attach (id target : NodeId) (v : NodeValue)
  | detach (id target : NodeId)
  | parameter (id parameter : NodeId) (name : String)
  | user (id node : NodeId)
  | value (id : NodeId) (v : NodeValue)

namespace Workspace

def linkAll (w : Workspace) (child : NodeId) (parents : List NodeId) : Workspace :=
  parents.foldl (fun v p => v.link child p) w

def edit (w : Workspace) : Edit → Workspace
  | .reserve => w.reserve
  | .report m => w.report m
  | .place id n => w.put id n
  | .compute _ id n arguments => (w.put id n).linkAll id arguments
  | .link child parent => w.link child parent
  | .unlink child parent => w.unlink child parent
  | .attach id t v =>
      ((((w.update id (Node.mapDistribution (Distribution.setTarget (some t)))).link id t).update
        id fun n => { n with value := v }).update t fun n => { n with distribution := some id })
  | .detach id t =>
      ((w.unlink id t).update t fun n => { n with distribution := none }).update id
        (Node.mapDistribution (Distribution.setTarget none))
  | .parameter id p name =>
      (w.link id p).update id (Node.mapDistribution (Distribution.setParameter name p))
  | .user id y => w.update id (Node.mapDistribution fun d => { d with userNode := y })
  | .value id v => w.update id fun n => { n with value := v }

def Admits (w : Workspace) : Edit → Prop
  | .reserve => True
  | .report _ => True
  | .place id n => id < w.nodes.length ∧ w.node? id = none ∧ n.Made
  | .compute isDeclared id n arguments => id < w.nodes.length ∧ w.node? id = none ∧
      (∃ dim v o extras reps,
        n = { Node.lone dim v (.operation o arguments extras) with representations := reps }) ∧
      (isDeclared = true -> w.Declares n.dim n.role) ∧ n.value.array.shape = n.dim
  | .link child parent => parent ≠ child
  | .unlink _ _ => True
  | .attach id t v => ∃ n d m, w.node? id = some n ∧ n.distribution? = some d ∧
      d.target = none ∧ w.node? t = some m ∧ m.dim = n.dim ∧ m.distribution = none ∧
      t ≠ id ∧ v.array.shape = n.dim
  | .detach id t => ∃ n d, w.node? id = some n ∧ n.distribution? = some d ∧
      d.target = some t
  | .parameter id p _ => ∃ n d, w.node? id = some n ∧ n.distribution? = some d ∧ p ≠ id
  | .user _ _ => True
  | .value id v => ∃ n, w.node? id = some n ∧ v.array.shape = n.dim

/-!
# Runs of edits
-/

inductive Edits (P : Workspace → Edit → Prop) : Workspace → Workspace → Prop where
  | refl (w : Workspace) : Edits P w w
  | tail {w v : Workspace} (e : Edit) : Edits P w v -> v.Admits e -> P v e ->
      Edits P w (v.edit e)

variable {P Q : Workspace → Edit → Prop} {u v w : Workspace}

namespace Edits

theorem single {e : Edit} (h : w.Admits e) (he : P w e) : Edits P w (w.edit e) :=
  tail e (refl w) h he

theorem trans (h : Edits P u v) (h' : Edits P v w) : Edits P u w := by
  induction h' with
  | refl => exact h
  | tail e _ hadmits he ih => exact tail e ih hadmits he

theorem mono (h : Edits P u v) (hPQ : forall w e, P w e -> Q w e) : Edits Q u v := by
  induction h with
  | refl => exact refl u
  | tail e _ hadmits he ih => exact tail e ih hadmits (hPQ _ e he)

theorem preserves {I : Workspace → Prop} (h : Edits P u v) (hu : I u)
    (hstep : forall w e, I w -> w.Admits e -> P w e -> I (w.edit e)) : I v := by
  induction h with
  | refl => exact hu
  | tail e _ hadmits he ih => exact hstep _ e ih hadmits he

end Edits

/-!
# Numbers
-/

theorem length_linkAll (w : Workspace) (child : NodeId) (parents : List NodeId) :
    (w.linkAll child parents).nodes.length = w.nodes.length := by
  induction parents generalizing w with
  | nil => rfl
  | cons p parents ih =>
      refine (ih (w.link child p)).trans ?_
      simp [link, update]

theorem Edits.length_le (h : Edits P w v) : w.nodes.length ≤ v.nodes.length := by
  apply h.preserves (I := fun v => w.nodes.length ≤ v.nodes.length) (Nat.le_refl _)
  intro u e hu _ _
  refine Nat.le_trans hu ?_
  cases e with
  | reserve => simp [edit, reserve]
  | report m => exact Nat.le_refl _
  | place id n => simp [edit, put]
  | compute b id n arguments =>
      rw [edit, length_linkAll]
      simp [put]
  | link c p => simp [edit, link, update]
  | unlink c p => simp [edit, unlink, update]
  | attach id t v => simp [edit, link, update]
  | detach id t => simp [edit, unlink, update]
  | parameter id p name => simp [edit, link, update]
  | user id y => simp [edit, update]
  | value id v => simp [edit, update]

/-!
# Nodes after edits
-/

theorem node?_update (w : Workspace) (id : NodeId) (f : Node → Node) (other : NodeId) :
    (w.update id f).node? other =
      (w.node? other).map fun n => if other = id then f n else n := by
  by_cases h : other = id
  · rw [h, node?_update_self]
    simp
  · rw [node?_update_of_ne w f (Ne.symm h)]
    simp [h]

theorem node?_link (w : Workspace) (child parent other : NodeId) :
    (w.link child parent).node? other = (w.node? other).map fun n =>
      let n := if other = child then n.addParent parent else n
      if other = parent then n.addChild child else n := by
  unfold link
  rw [node?_update, node?_update, Option.map_map]
  rfl

theorem node?_unlink (w : Workspace) (child parent other : NodeId) :
    (w.unlink child parent).node? other = (w.node? other).map fun n =>
      let n := if other = child then n.removeParent parent else n
      if other = parent then n.removeChild child else n := by
  unfold unlink
  rw [node?_update, node?_update, Option.map_map]
  rfl

end Workspace

namespace Node

variable (n : Node) (p c : NodeId)

theorem addParent_eq : n.addParent p = { n with parents := (n.addParent p).parents } := by
  unfold addParent
  split <;> rfl

theorem addChild_eq : n.addChild c = { n with children := (n.addChild c).children } := by
  unfold addChild
  split <;> rfl

theorem mem_parents_addParent {n : Node} {p q : NodeId} :
    q ∈ (n.addParent p).parents ↔ q ∈ n.parents ∨ q = p := by
  unfold addParent
  split
  · rename_i h
    constructor
    · exact Or.inl
    · rintro (hq | rfl)
      · exact hq
      · exact h
  · rw [List.mem_append, List.mem_singleton]

@[simp] theorem dim_addParent : (n.addParent p).dim = n.dim := by rw [addParent_eq]

@[simp] theorem role_addParent : (n.addParent p).role = n.role := by rw [addParent_eq]

@[simp] theorem value_addParent : (n.addParent p).value = n.value := by rw [addParent_eq]

@[simp] theorem distribution_addParent : (n.addParent p).distribution = n.distribution := by
  rw [addParent_eq]

@[simp] theorem parents_addChild : (n.addChild c).parents = n.parents := by rw [addChild_eq]

section Distribution

variable (f : Distribution → Distribution)

theorem mapDistribution_eq :
    n.mapDistribution f = { n with role := (n.mapDistribution f).role } := by
  unfold mapDistribution
  split <;> rfl

@[simp] theorem dim_mapDistribution : (n.mapDistribution f).dim = n.dim := by
  rw [mapDistribution_eq]

@[simp] theorem value_mapDistribution : (n.mapDistribution f).value = n.value := by
  rw [mapDistribution_eq]

@[simp] theorem parents_mapDistribution : (n.mapDistribution f).parents = n.parents := by
  rw [mapDistribution_eq]

@[simp] theorem distribution_mapDistribution :
    (n.mapDistribution f).distribution = n.distribution := by
  rw [mapDistribution_eq]

theorem role_mapDistribution_congr {n m : Node} (h : n.role = m.role) :
    (n.mapDistribution f).role = (m.mapDistribution f).role := by
  unfold mapDistribution
  rw [h]
  cases hm : m.role <;> simp [h, hm]

end Distribution

end Node
end DensityGraph
