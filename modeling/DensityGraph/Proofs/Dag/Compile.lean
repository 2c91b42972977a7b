import DensityGraph.Proofs.Dag.Component
import DensityGraph.Proofs.Dag.Cycle
import DensityGraph.Proofs.Graph.Consistent
/-!
# Compiled graphs

A compiled graph presents what its starting points are connected to: every node once and
behind its parents, and every edge.  There is none exactly where parents run in a circle or
a distribution lacks a proper target, and all of this is decided by the component alone.
-/

namespace DensityGraph

/-- What a compiled graph lists of a workspace. -/
structure Dag.Presents (d : Dag) (w : Workspace) (starts : List NodeId) : Prop where
  nodup : d.nodes.Nodup
  mem_nodes : forall x, x ∈ d.nodes ↔ ∃ s, s ∈ starts ∧ w.Connected s x
  parentsFirst : Order.ParentsFirst w.parents d.nodes
  nodup_edges : d.edges.Nodup
  mem_edges : forall p c, (p, c) ∈ d.edges ↔ p ∈ d.nodes ∧ c ∈ d.nodes ∧ p ∈ w.parents c
  latents : (d.latents w).Sublist d.nodes
  data : (d.data w).Sublist d.nodes
  operations : (d.operations w).Sublist d.nodes
  distributions : (d.distributions w).Sublist d.nodes
  partition : (d.latents w ++ d.data w ++ d.operations w ++ d.distributions w).Perm d.nodes

theorem Node.kinds (n : Node) :
    (n.isLatent, n.isData, n.isOperation, n.isDistribution) ∈
      [(true, false, false, false), (false, true, false, false), (false, false, true, false),
        (false, false, false, true)] := by
  unfold isLatent isData isOperation isDistribution distribution?
  cases n.role <;> simp

namespace Workspace

variable {w : Workspace} {starts starts' ids : List NodeId} {d : Dag} {x p c : NodeId}

/-!
# Kinds of nodes
-/

theorem perm_kinds (hids : forall x, x ∈ ids -> (w.node? x).isSome = true) :
    (ids.filter (w.has Node.isLatent) ++ ids.filter (w.has Node.isData) ++
      ids.filter (w.has Node.isOperation) ++ ids.filter (w.has Node.isDistribution)).Perm ids := by
  have hkinds : forall x, x ∈ ids ->
      (w.has Node.isLatent x, w.has Node.isData x, w.has Node.isOperation x,
        w.has Node.isDistribution x) ∈ [(true, false, false, false), (false, true, false, false),
          (false, false, true, false), (false, false, false, true)] := by
    intro x hx
    rcases Option.isSome_iff_exists.mp (hids x hx) with ⟨n, hn⟩
    rw [has_of_node? hn, has_of_node? hn, has_of_node? hn, has_of_node? hn]
    exact n.kinds
  induction ids with
  | nil => exact List.Perm.nil
  | cons x ids ih =>
      have hrest := ih (fun y hy => hids y (List.mem_cons_of_mem x hy))
        fun y hy => hkinds y (List.mem_cons_of_mem x hy)
      have hx := hkinds x List.mem_cons_self
      simp only [List.mem_cons, List.not_mem_nil, or_false, Prod.mk.injEq] at hx
      have hfront : forall as bs : List NodeId, (as ++ bs).Perm ids ->
          (as ++ x :: bs).Perm (x :: ids) := by
        intro as bs h
        exact List.perm_middle.trans (h.cons x)
      rcases hx with ⟨h₁, h₂, h₃, h₄⟩ | ⟨h₁, h₂, h₃, h₄⟩ | ⟨h₁, h₂, h₃, h₄⟩ | ⟨h₁, h₂, h₃, h₄⟩
      · simp only [List.filter_cons, h₁, h₂, h₃, h₄, if_true, Bool.false_eq_true, if_false,
          List.cons_append]
        exact hrest.cons x
      · simp only [List.filter_cons, h₁, h₂, h₃, h₄, if_true, Bool.false_eq_true, if_false]
        simp only [List.append_assoc, List.cons_append] at hrest ⊢
        exact hfront _ _ hrest
      · simp only [List.filter_cons, h₁, h₂, h₃, h₄, if_true, Bool.false_eq_true, if_false]
        simp only [List.append_assoc, List.cons_append] at hrest ⊢
        rw [← List.append_assoc] at hrest ⊢
        exact hfront _ _ hrest
      · simp only [List.filter_cons, h₁, h₂, h₃, h₄, if_true, Bool.false_eq_true, if_false]
        exact hfront _ _ hrest

/-!
# Edges
-/

theorem mem_edges : (p, c) ∈ w.edges ids ↔ c ∈ ids ∧ p ∈ w.parents c := by
  simp [edges]

theorem Mutual.nodup_edges (h : w.Mutual) (hids : ids.Nodup) : (w.edges ids).Nodup := by
  unfold edges
  rw [List.nodup_flatMap]
  constructor
  · intro c _
    apply (h.nodup_parents c).map
    intro p q hpq
    exact (Prod.mk.inj hpq).1
  · apply hids.imp
    intro c c' hne edge hc hc'
    rcases List.mem_map.mp hc with ⟨p, _, rfl⟩
    rcases List.mem_map.mp hc' with ⟨q, _, heq⟩
    exact hne (Prod.mk.inj heq).2.symm

/-!
# Compilation
-/

theorem edges_of_compile (h : w.compile starts = .ok d) :
    d.edges = w.edges (w.component starts) := by
  unfold compile at h
  simp only at h
  split at h
  · cases h
  · split at h
    · cases h
    · split at h
      · cases h
      · split at h
        · cases h
        · cases h
          rfl

theorem Mutual.presents (h : w.Mutual)
    (hstarts : forall s, s ∈ starts -> (w.node? s).isSome = true)
    (hd : w.compile starts = .ok d) : d.Presents w starts := by
  rcases compile_ok hd with ⟨hperm, hfirst⟩
  have hmem : forall x, x ∈ d.nodes ↔ ∃ s, s ∈ starts ∧ w.Connected s x := by
    intro x
    rw [hperm.mem_iff]
    exact h.closed.mem_component hstarts
  constructor
  · exact hperm.nodup_iff.mpr (w.nodup_component starts)
  · exact hmem
  · exact hfirst
  · rw [edges_of_compile hd]
    exact h.nodup_edges (w.nodup_component starts)
  · intro p c
    rw [edges_of_compile hd, mem_edges, ← hperm.mem_iff]
    constructor
    · rintro ⟨hc, hp⟩
      exact ⟨hfirst.mem_of_mem hc hp, hc, hp⟩
    · rintro ⟨_, hc, hp⟩
      exact ⟨hc, hp⟩
  · exact List.filter_sublist
  · exact List.filter_sublist
  · exact List.filter_sublist
  · exact List.filter_sublist
  · apply perm_kinds
    intro x hx
    exact h.closed.isSome_of_mem_compile hstarts hd hx

theorem Closed.mem_component_of_parent (h : w.Closed)
    (hstarts : forall s, s ∈ starts -> (w.node? s).isSome = true)
    (hx : x ∈ w.component starts) (hp : p ∈ w.parents x) : p ∈ w.component starts := by
  rcases (h.mem_component hstarts).mp hx with ⟨s, hs, hsx⟩
  exact (h.mem_component hstarts).mpr ⟨s, hs, hsx.tail (mem_neighbours.mpr (Or.inl hp))⟩

theorem HasNoStrays.any_eq_false (h : w.HasNoStrays) (ids : List NodeId) :
    ids.any (w.has fun n => !n.strays.isEmpty) = false := by
  rw [List.any_eq_false]
  intro x _ hx
  rcases exists_node_of_has hx with ⟨n, hn, hstrays⟩
  rw [h x n hn] at hstrays
  cases hstrays

theorem targetFault_ne_cycle (w : Workspace) (x : NodeId) : w.targetFault x ≠ some .cycle := by
  unfold targetFault
  split
  · nofun
  · split
    · nofun
    · split <;> nofun

theorem compile_cycle_iff (h : w.Mutual) (hstrays : w.HasNoStrays) (hne : starts ≠ [])
    (hstarts : forall s, s ∈ starts -> (w.node? s).isSome = true) :
    w.compile starts = .error (.invalid .cycle) ↔
      ∃ s x, s ∈ starts ∧ w.Connected s x ∧ Order.Precedes w.parents x x := by
  have hcycle : (Order.sorted w.parents (w.component starts)).length <
      (w.component starts).length ↔
        ∃ s x, s ∈ starts ∧ w.Connected s x ∧ Order.Precedes w.parents x x := by
    rw [Order.length_sorted_lt_iff (w.nodup_component starts)
      fun x hx p => h.closed.mem_component_of_parent hstarts hx]
    constructor
    · rintro ⟨x, hx, hcycle⟩
      rcases (h.closed.mem_component hstarts).mp hx with ⟨s, hs, hsx⟩
      exact ⟨s, x, hs, hsx, hcycle⟩
    · rintro ⟨s, x, hs, hsx, hcycle⟩
      exact ⟨x, (h.closed.mem_component hstarts).mpr ⟨s, hs, hsx⟩, hcycle⟩
  rw [← hcycle]
  unfold compile
  simp only [List.isEmpty_iff, hne, if_false, hstrays.any_eq_false, Bool.false_eq_true]
  constructor
  · intro herror
    by_contra hlength
    rw [if_neg hlength] at herror
    cases hfault : (Order.sorted w.parents (w.component starts)).findSome? w.targetFault with
    | none =>
        rw [hfault] at herror
        cases herror
    | some reason =>
        rw [hfault] at herror
        cases herror
        rcases List.exists_of_findSome?_eq_some hfault with ⟨x, _, hx⟩
        exact w.targetFault_ne_cycle x hx
  · intro hlength
    rw [if_pos hlength]

theorem compile_congr (hne : starts ≠ []) (hne' : starts' ≠ [])
    (h : w.component starts' = w.component starts) : w.compile starts' = w.compile starts := by
  unfold compile
  simp only [List.isEmpty_iff, hne, hne', if_false, h]

end Workspace

namespace Action

open Workspace

variable {w : Workspace} {starts : List NodeId}

theorem mapM_nodeId (starts : List NodeId) :
    (starts.map Value.node).mapM nodeId = (pure starts : Action (List NodeId)) := by
  induction starts with
  | nil => rfl
  | cons s starts ih =>
      rw [List.map_cons, List.mapM_cons, ih]
      rfl

theorem run_compile (w : Workspace) (starts : List NodeId) :
    (compile (starts.map Value.node)).run w =
      (do
        let dag ← ofExcept (w.compile starts)
        report .dag .info (dag.summary (← get))
        return dag : Action Dag).run w := by
  unfold compile
  rw [mapM_nodeId]
  rfl

theorem ends_compile : Ends (compile (starts.map Value.node)) w
    (fun d _ => w.compile starts = .ok d) (fun f w' => w.compile starts = .error f ∧ w' = w) := by
  unfold compile
  rw [mapM_nodeId, pure_bind, ends_bind, ends_get, ends_bind, ends_ofExcept]
  constructor
  · intro d hd
    rw [ends_bind, ends_get, ends_bind, ends_report, ends_pure]
    exact hd
  · intro f hf
    exact ⟨hf, rfl⟩

theorem run_compile_error_iff {f : Failure} :
    (compile (starts.map Value.node)).run w = (.error f, w) ↔ w.compile starts = .error f := by
  constructor
  · intro hrun
    exact (ends_compile.of_error hrun).1
  · intro hf
    rw [run_compile, hf]
    rfl

/-- In every workspace that can be built, compilation presents the component of its starting
points, fails on a cycle if and only if there is one, and ends in the same way for all
starting points that meet the same components. -/
theorem compile_component (w : Workspace) (h : w.Built fun w c => w.knows c = true)
    (starts : List NodeId) (hne : starts ≠ [])
    (hstarts : forall s, s ∈ starts -> (w.node? s).isSome = true) :
    (forall (d : Dag) (w' : Workspace),
      (compile (starts.map Value.node)).run w = (.ok d, w') -> d.Presents w starts) ∧
    ((compile (starts.map Value.node)).run w = (.error (.invalid .cycle), w) ↔
      ∃ s x, s ∈ starts ∧ w.Connected s x ∧ Order.Precedes w.parents x x) ∧
    (forall starts' : List NodeId, starts' ≠ [] ->
      (forall s, s ∈ starts -> ∃ t, t ∈ starts' ∧ w.Connected s t) ->
      (forall t, t ∈ starts' -> ∃ s, s ∈ starts ∧ w.Connected s t) ->
        (compile (starts'.map Value.node)).run w = (compile (starts.map Value.node)).run w) := by
  have hmutual : w.Mutual := mutual_of_built h
  refine ⟨?_, ?_, ?_⟩
  · intro d w' hrun
    exact hmutual.presents hstarts (ends_compile.of_ok hrun)
  · rw [run_compile_error_iff]
    exact compile_cycle_iff hmutual (hasNoStrays_of_built h) hne hstarts
  · intro starts' hne' hmeet hmeet'
    rw [run_compile, run_compile,
      compile_congr hne hne' (hmutual.component_eq hstarts hmeet hmeet')]

theorem compile_selfCentred : selfCentred.compile [2] = .ok ⟨[0, 1, 2], [(0, 2), (1, 2)]⟩ :=
  compile_eq [0, 1, 2] rfl (component_of_visitWithin? 16 (by decide +kernel)) (by decide +kernel)
    (by decide +kernel) (by decide) (by decide +kernel) (by decide +kernel)

theorem compile_component_selfCentred :
    Dag.Presents ⟨[0, 1, 2], [(0, 2), (1, 2)]⟩ selfCentred [2] ∧
      (compile [.node 0, .node 1]).run selfCentred = (compile [.node 2]).run selfCentred := by
  have hbuilt : selfCentred.Built fun w c => w.knows c = true :=
    built_foldl (.empty {} true) (by decide +kernel)
  have hrun : ∃ w', (compile ([2].map Value.node)).run selfCentred =
      (.ok ⟨[0, 1, 2], [(0, 2), (1, 2)]⟩, w') := by
    rw [run_compile, compile_selfCentred]
    exact ⟨_, rfl⟩
  have hedge : forall x, x ∈ [0, 1] -> x ∈ selfCentred.neighbours 2 := by
    decide +kernel
  rcases hrun with ⟨w', hrun⟩
  rcases compile_component selfCentred hbuilt [2] (by decide) (by decide +kernel) with
    ⟨hpresents, _, hsame⟩
  refine ⟨hpresents _ _ hrun, hsame [0, 1] (by decide) ?_ ?_⟩
  · intro s hs
    rw [List.mem_singleton.mp hs]
    exact ⟨0, List.mem_cons_self, Relation.ReflTransGen.single (hedge 0 List.mem_cons_self)⟩
  · intro t ht
    exact ⟨2, List.mem_cons_self, Relation.ReflTransGen.single (hedge t ht)⟩

end Action
end DensityGraph
