import DensityGraph.Dag.Basic
/-!
# What a node reads

When a graph is compiled, an operation reads its arguments, and a distribution reads
its target and its parameters.  Only the parents of a node are certain to belong to
the same compiled graph and to be dealt with before it.
-/

namespace DensityGraph

/-- The nodes that a node refers to in its role. -/
def Role.reads : Role → List NodeId
  | operation _ arguments _ => arguments
  | distribution d => d.target.toList ++ d.parameters.map Prod.snd
  | _ => []

/-- The arguments of the operation, if the node is a computed node. -/
def Node.arguments (n : Node) : List NodeId :=
  match n.role with
  | .operation _ arguments _ => arguments
  | _ => []

/-!
# Kinds of nodes

A computed node reads its arguments, a distribution its target and its parameters, and other
nodes read nothing.
-/

namespace Node

variable {n : Node}

theorem isData_of_role (h : n.role = .data) : n.isData = true := by
  unfold isData
  rw [h]

theorem role_of_isData (h : n.isData = true) : n.role = .data := by
  unfold isData at h
  split at h
  · assumption
  · cases h

theorem isOperation_of_role {o : Operation} {arguments : List NodeId} {extras : List Value}
    (h : n.role = .operation o arguments extras) : n.isOperation = true := by
  unfold isOperation
  rw [h]

theorem isLatent_of_role {b : Interval} {c : Constraint} {size : Nat}
    (h : n.role = .latent b c size) : n.isLatent = true ∧ n.freeSize = size := by
  unfold isLatent freeSize
  rw [h]
  exact ⟨rfl, rfl⟩

theorem role_of_isLatent (h : n.isLatent = true) :
    ∃ b c, n.role = .latent b c n.freeSize := by
  unfold isLatent at h
  unfold freeSize
  split at h
  · rename_i b c size hrole
    rw [hrole]
    exact ⟨b, c, rfl⟩
  · cases h

theorem isDistribution_eq_false (h : forall d, n.role ≠ .distribution d) :
    n.isDistribution = false := by
  unfold isDistribution distribution?
  cases hrole : n.role with
  | distribution d => exact absurd hrole (h d)
  | _ => rfl

theorem role_ne_of_isDistribution (h : n.isDistribution = false) (d : Distribution) :
    n.role ≠ .distribution d := by
  intro hrole
  unfold isDistribution distribution? at h
  rw [hrole] at h
  cases h

theorem arguments_of_operation {o : Operation} {arguments : List NodeId} {extras : List Value}
    (h : n.role = .operation o arguments extras) : n.arguments = arguments := by
  unfold Node.arguments
  rw [h]

theorem arguments_eq_nil (h : n.isOperation = false) : n.arguments = [] := by
  unfold isOperation at h
  unfold arguments
  cases hrole : n.role with
  | operation o arguments extras =>
      rw [hrole] at h
      cases h
  | _ => rfl

theorem mem_reads_of_mem_arguments {a : NodeId} (h : a ∈ n.arguments) : a ∈ n.role.reads := by
  unfold arguments at h
  unfold Role.reads
  cases hrole : n.role <;> simp_all

theorem exists_role_of_mem_arguments {a : NodeId} (h : a ∈ n.arguments) :
    ∃ o arguments extras, n.role = .operation o arguments extras ∧ a ∈ arguments := by
  unfold arguments at h
  split at h
  · rename_i o arguments extras hrole
    exact ⟨o, arguments, extras, hrole, h⟩
  · cases h

theorem role_of_distribution? {r : Distribution} (h : n.distribution? = some r) :
    n.role = .distribution r := by
  unfold distribution? at h
  split at h
  · rename_i hrole
    cases h
    exact hrole
  · cases h

theorem mem_reads_of_parameter {r : Distribution} {q : NodeId} (hr : n.distribution? = some r)
    (hq : q ∈ r.parameters.map Prod.snd) : q ∈ n.role.reads := by
  rw [role_of_distribution? hr, Role.reads]
  exact List.mem_append.mpr (Or.inr hq)

theorem mem_reads_of_distribution {r : Distribution} {t q : NodeId}
    (hr : n.distribution? = some r) (ht : r.target = some t)
    (hq : q ∈ t :: r.parameters.map Prod.snd) : q ∈ n.role.reads := by
  rw [role_of_distribution? hr, Role.reads, ht]
  exact hq

end Node

namespace Workspace

/-- Every node has all nodes that it reads among its parents. -/
def ReadsParents (w : Workspace) : Prop :=
  forall id n, w.node? id = some n -> forall r, r ∈ n.role.reads -> r ∈ n.parents

def ComputesFromParents (w : Workspace) : Prop :=
  forall id n, w.node? id = some n -> forall a, a ∈ n.arguments -> a ∈ n.parents

theorem ReadsParents.computes {w : Workspace} (h : w.ReadsParents) : w.ComputesFromParents :=
  fun id n hn a ha => h id n hn a (Node.mem_reads_of_mem_arguments ha)

def AppliesToTensors (w : Workspace) : Prop :=
  forall id n o arguments extras, w.node? id = some n ->
    n.role = .operation o arguments extras ->
      forall a, a ∈ arguments -> w.has Node.isDistribution a = false

/-- The arguments of a computed node are at hand, and so are the parameters of those among
them that are distributions. -/
def FindsIn (w : Workspace) (ids : List NodeId) (n : Node) : Prop :=
  forall a, a ∈ n.arguments -> a ∈ ids ∧
    forall r, (w.node? a).bind Node.distribution? = some r ->
      forall q, q ∈ r.parameters.map Prod.snd -> q ∈ ids

/-- A computed node has its arguments among its parents, and those among them that are
distributions have their parameters among theirs. -/
def FindsArguments (w : Workspace) (n : Node) : Prop :=
  forall a, a ∈ n.arguments -> a ∈ n.parents ∧
    forall r, (w.node? a).bind Node.distribution? = some r ->
      forall q, q ∈ r.parameters.map Prod.snd -> q ∈ w.parents a

theorem parents_of_node? {w : Workspace} {id : NodeId} {n : Node}
    (h : w.node? id = some n) : w.parents id = n.parents := by
  unfold parents
  rw [h]

theorem mem_select {w : Workspace} {d : Dag} {p : Node → Bool} {id : NodeId} :
    id ∈ d.select w p ↔ id ∈ d.nodes ∧ w.has p id = true := by
  unfold Dag.select
  rw [List.mem_filter]

theorem lt_length_of_isSome {w : Workspace} {id : NodeId} (h : (w.node? id).isSome = true) :
    id < w.nodes.length := by
  apply Nat.lt_of_not_le
  intro hle
  rw [node?_eq_none_of_length_le hle] at h
  cases h

theorem has_of_node? {w : Workspace} {id : NodeId} {n : Node} {p : Node → Bool}
    (h : w.node? id = some n) : w.has p id = p n := by
  unfold has
  rw [h]

theorem ReadsParents.findsArguments {w : Workspace} (h : w.ReadsParents) {id : NodeId} {n : Node}
    (hn : w.node? id = some n) : w.FindsArguments n := by
  intro a ha
  refine ⟨h id n hn a (Node.mem_reads_of_mem_arguments ha), fun r hr q hq => ?_⟩
  rcases Option.bind_eq_some_iff.mp hr with ⟨m, hm, hdistribution⟩
  rw [parents_of_node? hm]
  exact h a m hm q (Node.mem_reads_of_parameter hdistribution hq)

theorem findsArguments_of_computes {w : Workspace} (h : w.ComputesFromParents)
    (htensors : w.AppliesToTensors) {id : NodeId} {n : Node} (hn : w.node? id = some n) :
    w.FindsArguments n := by
  intro a ha
  refine ⟨h id n hn a ha, fun r hr => ?_⟩
  rcases Node.exists_role_of_mem_arguments ha with ⟨o, arguments, extras, hrole, hmem⟩
  rcases Option.bind_eq_some_iff.mp hr with ⟨m, hm, hdistribution⟩
  have hkind := htensors id n o arguments extras hn hrole a hmem
  rw [has_of_node? hm, Node.isDistribution, hdistribution] at hkind
  cases hkind

theorem exists_node_of_has {w : Workspace} {id : NodeId} {p : Node → Bool}
    (h : w.has p id = true) : ∃ n, w.node? id = some n ∧ p n = true := by
  unfold has at h
  cases hn : w.node? id with
  | none =>
      rw [hn] at h
      cases h
  | some n =>
      rw [hn] at h
      exact ⟨n, rfl, h⟩

theorem isSome_of_has {w : Workspace} {id : NodeId} {p : Node → Bool} (h : w.has p id = true) :
    (w.node? id).isSome = true := by
  rcases exists_node_of_has h with ⟨n, hn, _⟩
  rw [hn]
  rfl

theorem mem_data {w : Workspace} {d : Dag} {id : NodeId} {n : Node} (hid : id ∈ d.nodes)
    (hn : w.node? id = some n) (hdata : n.isData = true) : id ∈ d.data w := by
  apply mem_select.mpr
  rw [has_of_node? hn]
  exact ⟨hid, hdata⟩

theorem mem_latents {w : Workspace} {d : Dag} {id : NodeId} {n : Node} (hid : id ∈ d.nodes)
    (hn : w.node? id = some n) {b : Interval} {c : Constraint} {size : Nat}
    (hrole : n.role = .latent b c size) : id ∈ d.latents w := by
  apply mem_select.mpr
  rw [has_of_node? hn]
  exact ⟨hid, (Node.isLatent_of_role hrole).1⟩

end Workspace
end DensityGraph
